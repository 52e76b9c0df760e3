/-
  FlatBundle.Proofs.Value.Staying
  ───────────────────────────────
  **VALUES THAT CONVERSION GIVES BACK AS THEY ARE.**

  Conversion changes errors, methods with parameters, references into other modules of the
  library, and the arguments of references to declared names.  A value in which nothing of
  this stands (`Value.Stays`, at every depth) refers to its own module only, and rewriting it
  gives it back, provided that each declared name is replaced by itself
  (`Value.Everywhere.rewrite_eq_self`).
-/
import FlatBundle.Proofs.Value.Children

namespace FlatBundle

variable {sources : Sources} {replace : Target → Value} {module : String}

/-! ## §1. What stays -/

/-- The member loses nothing: it is no method with parameters. -/
def Member.Stays : Member → Prop
  | .method _ _ parameters => parameters = none
  | .constructor .. | .property _ => True

/-- Conversion has nothing to change at a value, its children aside: it is no error, no
reference into another module of the library, no reference with arguments to a declared
name, and no class with a method that has parameters. -/
def Value.Stays (declares : String → Bool) : Value → Prop
  | .node (.err ..) => False
  | .node (.ref (.global name arguments)) => declares name = true → arguments = none
  | .node (.ref (.imported specifier _ _)) | .node (.ref (.default specifier _ _))
  | .node (.ref (.module specifier)) => ModulePath.isRelative specifier = false
  | .node (.cls _ _ _ members _) => ∀ entry ∈ members.getD [], ∀ member ∈ entry.2, member.Stays
  | _ => True

/-! ## §2. Lists that stay -/

namespace Rewrite

theorem list_eq_self {values : List Value}
    (same : ∀ value ∈ values, value.rewrite sources replace module = value) :
    Rewrite.list sources replace module values = values := by
  rw [Rewrite.list_eq_map, List.map_congr_left same, List.map_id']

theorem list?_eq_self {values : Option (List Value)}
    (same : ∀ value ∈ values.getD [], value.rewrite sources replace module = value) :
    Rewrite.list? sources replace module values = values := by
  cases values with
  | none => rfl
  | some values => exact congrArg some (list_eq_self same)

theorem value?_eq_self {value : Option Value}
    (same : ∀ inner ∈ value.toList, inner.rewrite sources replace module = inner) :
    Rewrite.value? sources replace module value = value := by
  cases value with
  | none => rfl
  | some value => exact congrArg some (same value List.mem_cons_self)

theorem entries_eq_self {entries : List (String × Value)}
    (same : ∀ value ∈ entries.map Prod.snd, value.rewrite sources replace module = value) :
    Rewrite.entries sources replace module entries = entries := by
  induction entries with
  | nil => rfl
  | cons entry rest ih =>
      rw [Rewrite.entries, same entry.2 List.mem_cons_self,
        ih fun value hvalue => same value (List.mem_cons_of_mem _ hvalue)]

theorem lists?_eq_self {lists : Option (List (Option (List Value)))}
    (same : ∀ value ∈ (lists.getD []).flatMap (·.getD []),
      value.rewrite sources replace module = value) :
    Rewrite.lists? sources replace module lists = lists := by
  cases lists with
  | none => rfl
  | some lists =>
      show some (Rewrite.lists sources replace module lists) = some lists
      rw [Option.some.injEq]
      induction lists with
      | nil => rfl
      | cons decorators rest ih =>
          replace same : ∀ value ∈ decorators.getD [] ++ rest.flatMap (·.getD []),
            value.rewrite sources replace module = value := same
          rw [Rewrite.lists,
            list?_eq_self fun value hvalue => same value (List.mem_append_left _ hvalue),
            ih fun value hvalue => same value (List.mem_append_right _ hvalue)]

end Rewrite

theorem Member.Stays.rewrite_eq_self {member : Member} (stays : member.Stays)
    (same : ∀ value ∈ member.children, value.rewrite sources replace module = value) :
    member.rewrite sources replace module = member := by
  cases member with
  | constructor decorators parameterDecorators parameters =>
      simp only [Member.children, List.forall_mem_append] at same
      rw [Member.rewrite, Rewrite.list?_eq_self same.1, Rewrite.lists?_eq_self same.2.1,
        Rewrite.list?_eq_self same.2.2]
  | method decorators parameterDecorators parameters =>
      simp only [Member.children, List.forall_mem_append] at same
      obtain rfl : parameters = none := stays
      rw [Member.rewrite, Rewrite.list?_eq_self same.1, Rewrite.lists?_eq_self same.2.1]
  | property decorators => rw [Member.rewrite, Rewrite.list?_eq_self same]

namespace Rewrite

theorem overloads_eq_self {overloads : List Member} (stays : ∀ member ∈ overloads, member.Stays)
    (same : ∀ value ∈ overloads.flatMap Member.children,
      value.rewrite sources replace module = value) :
    Rewrite.overloads sources replace module overloads = overloads := by
  induction overloads with
  | nil => rfl
  | cons member rest ih =>
      rw [List.flatMap_cons, List.forall_mem_append] at same
      rw [Rewrite.overloads, (stays member List.mem_cons_self).rewrite_eq_self same.1,
        ih (fun other hother => stays other (List.mem_cons_of_mem _ hother)) same.2]

theorem members?_eq_self {members : Option (List (String × List Member))}
    (stays : ∀ entry ∈ members.getD [], ∀ member ∈ entry.2, member.Stays)
    (same : ∀ value ∈ (members.getD []).flatMap (fun entry => entry.2.flatMap Member.children),
      value.rewrite sources replace module = value) :
    Rewrite.members? sources replace module members = members := by
  cases members with
  | none => rfl
  | some members =>
      show some (Rewrite.members sources replace module members) = some members
      rw [Option.some.injEq]
      induction members with
      | nil => rfl
      | cons entry rest ih =>
          replace same : ∀ value ∈ entry.2.flatMap Member.children
              ++ rest.flatMap (fun entry => entry.2.flatMap Member.children),
            value.rewrite sources replace module = value := same
          rw [List.forall_mem_append] at same
          rw [Rewrite.members, overloads_eq_self (stays entry List.mem_cons_self) same.1,
            ih (fun other hother => stays other (List.mem_cons_of_mem _ hother)) same.2]

/-- Static members: functions stay, and all others are copied anyway. -/
theorem statics?_eq_self {statics : Option (List (String × Value))}
    (same : ∀ value ∈ (statics.getD []).map Prod.snd,
      value.rewrite sources replace module = value) :
    Rewrite.statics? sources replace module statics = statics := by
  cases statics with
  | none => rfl
  | some statics =>
      show some (Rewrite.statics sources replace module statics) = some statics
      rw [Option.some.injEq]
      induction statics with
      | nil => rfl
      | cons entry rest ih =>
          obtain ⟨name, value⟩ := entry
          have here : value.rewrite sources replace module = value :=
            same value List.mem_cons_self
          have there := ih fun other hother => same other (List.mem_cons_of_mem _ hother)
          unfold Rewrite.statics
          split
          · next hnil => cases hnil
          · next name' parameters defaults body rest' hcons =>
              obtain ⟨hpair, rfl⟩ := List.cons.inj hcons
              obtain ⟨rfl, rfl⟩ := Prod.mk.inj hpair
              rw [there]
              exact congrArg (fun value => (name, value) :: rest) here
          · next name' value' rest' _ hcons =>
              obtain ⟨hpair, rfl⟩ := List.cons.inj hcons
              obtain ⟨rfl, rfl⟩ := Prod.mk.inj hpair
              rw [there]

end Rewrite

/-! ## §3. Values that stay -/

theorem Reference.rewrite_eq_self {reference : Reference}
    (stays : (Value.ofReference reference).Stays (sources.declares module))
    (own : ∀ name, sources.declares module name = true → replace (module, name) = .global name)
    (same : ∀ value ∈ reference.parts, value.rewrite sources replace module = value) :
    reference.rewrite sources replace module = .ofReference reference := by
  cases reference with
  | global name arguments =>
      rw [Reference.rewrite]
      by_cases declared : sources.declares module name = true
      · obtain rfl : arguments = none := stays declared
        rw [if_pos declared, own name declared]
        rfl
      · rw [if_neg declared, Rewrite.list?_eq_self same]
  | imported specifier name arguments =>
      replace stays : ModulePath.isRelative specifier = false := stays
      rw [Reference.rewrite, if_neg (by simp [stays]), Rewrite.list?_eq_self same]
  | default specifier flag arguments =>
      replace stays : ModulePath.isRelative specifier = false := stays
      rw [Reference.rewrite, if_neg (by simp [stays]), Rewrite.list?_eq_self same]
  | module specifier =>
      replace stays : ModulePath.isRelative specifier = false := stays
      rw [Reference.rewrite, if_neg (by simp [stays])]
  | bundled id => rfl

theorem Node.rewrite_eq_self {node : Node}
    (stays : (Value.node node).Stays (sources.declares module))
    (own : ∀ name, sources.declares module name = true → replace (module, name) = .global name)
    (same : ∀ value ∈ node.children, value.rewrite sources replace module = value) :
    node.rewrite sources replace module = .node node := by
  cases node with
  | cls base arity decorators members statics =>
      simp only [Node.children, List.forall_mem_append] at same
      obtain ⟨smembers, sstatics, sbase, sdecorators⟩ := same
      rw [Node.rewrite, Rewrite.value?_eq_self sbase, Rewrite.list?_eq_self sdecorators,
        Rewrite.members?_eq_self stays smembers, Rewrite.statics?_eq_self sstatics]
  | iface => rfl
  | func parameters defaults body =>
      simp only [Node.children, List.forall_mem_append] at same
      rw [Node.rewrite, Rewrite.list?_eq_self same.1, Rewrite.value?_eq_self same.2]
  | err => exact stays.elim
  | ref reference => exact Reference.rewrite_eq_self stays own same
  | call callee arguments | construct callee arguments =>
      simp only [Node.children, List.forall_mem_cons] at same
      rw [Node.rewrite, same.1, Rewrite.list?_eq_self same.2]
  | binary | index | pre | cond | select | spread =>
      simp only [Node.children, List.forall_mem_cons] at same
      simp only [Node.rewrite, same]

/-- **Rewriting a value that stays gives it back**, where declared names are replaced by
themselves. -/
theorem Value.Everywhere.rewrite_eq_self {value : Value}
    (h : value.Everywhere (Value.Stays (sources.declares module)))
    (own : ∀ name, sources.declares module name = true → replace (module, name) = .global name) :
    value.rewrite sources replace module = value := by
  induction h with
  | @intro value here _ ih =>
      cases value with
      | null | bool | num | str => rfl
      | arr items => exact congrArg Value.arr (Rewrite.list_eq_self ih)
      | obj entries => exact congrArg Value.obj (Rewrite.entries_eq_self ih)
      | node node => exact Node.rewrite_eq_self here own ih

/-! ## §4. What a value that stays refers to

What holds of all names that the children refer to holds of those that the value refers
to. -/

variable {p : Target → Prop}

namespace Targets

theorem forall_list {values : List Value}
    (h : ∀ value ∈ values, ∀ t ∈ value.targets sources module, p t) :
    ∀ t ∈ Targets.list sources module values, p t := by
  induction values with
  | nil => exact fun t ht => absurd ht List.not_mem_nil
  | cons value rest ih =>
      rw [Targets.list, List.forall_mem_append]
      exact ⟨h value List.mem_cons_self, ih fun other hother =>
        h other (List.mem_cons_of_mem _ hother)⟩

theorem forall_list? {values : Option (List Value)}
    (h : ∀ value ∈ values.getD [], ∀ t ∈ value.targets sources module, p t) :
    ∀ t ∈ Targets.list? sources module values, p t := by
  cases values with
  | none => exact fun t ht => absurd ht List.not_mem_nil
  | some values => exact forall_list h

theorem forall_value? {value : Option Value}
    (h : ∀ inner ∈ value.toList, ∀ t ∈ inner.targets sources module, p t) :
    ∀ t ∈ Targets.value? sources module value, p t := by
  cases value with
  | none => exact fun t ht => absurd ht List.not_mem_nil
  | some value => exact h value List.mem_cons_self

theorem forall_entries {entries : List (String × Value)}
    (h : ∀ value ∈ entries.map Prod.snd, ∀ t ∈ value.targets sources module, p t) :
    ∀ t ∈ Targets.entries sources module entries, p t := by
  induction entries with
  | nil => exact fun t ht => absurd ht List.not_mem_nil
  | cons entry rest ih =>
      rw [Targets.entries, List.forall_mem_append]
      exact ⟨h entry.2 List.mem_cons_self, ih fun other hother =>
        h other (List.mem_cons_of_mem _ hother)⟩

theorem forall_lists? {lists : Option (List (Option (List Value)))}
    (h : ∀ value ∈ (lists.getD []).flatMap (·.getD []),
      ∀ t ∈ value.targets sources module, p t) :
    ∀ t ∈ Targets.lists? sources module lists, p t := by
  cases lists with
  | none => exact fun t ht => absurd ht List.not_mem_nil
  | some lists =>
      show ∀ t ∈ Targets.lists sources module lists, p t
      induction lists with
      | nil => exact fun t ht => absurd ht List.not_mem_nil
      | cons decorators rest ih =>
          replace h : ∀ value ∈ decorators.getD [] ++ rest.flatMap (·.getD []),
            ∀ t ∈ value.targets sources module, p t := h
          rw [List.forall_mem_append] at h
          rw [Targets.lists, List.forall_mem_append]
          exact ⟨forall_list? h.1, ih h.2⟩

theorem forall_member {member : Member}
    (h : ∀ value ∈ member.children, ∀ t ∈ value.targets sources module, p t) :
    ∀ t ∈ member.targets sources module, p t := by
  cases member with
  | constructor decorators parameterDecorators parameters =>
      simp only [Member.children, List.forall_mem_append] at h
      simp only [Member.targets, List.forall_mem_append]
      exact ⟨forall_list? h.1, forall_lists? h.2.1, forall_list? h.2.2⟩
  | method decorators parameterDecorators parameters =>
      simp only [Member.children, List.forall_mem_append] at h
      simp only [Member.targets, List.forall_mem_append]
      exact ⟨forall_list? h.1, forall_lists? h.2.1⟩
  | property decorators => exact forall_list? h

theorem forall_members? {members : Option (List (String × List Member))}
    (h : ∀ value ∈ (members.getD []).flatMap (fun entry => entry.2.flatMap Member.children),
      ∀ t ∈ value.targets sources module, p t) :
    ∀ t ∈ Targets.members? sources module members, p t := by
  have overloads : ∀ overloads : List Member,
      (∀ value ∈ overloads.flatMap Member.children, ∀ t ∈ value.targets sources module, p t) →
      ∀ t ∈ Targets.overloads sources module overloads, p t := by
    intro overloads h
    induction overloads with
    | nil => exact fun t ht => absurd ht List.not_mem_nil
    | cons member rest ih =>
        rw [List.flatMap_cons, List.forall_mem_append] at h
        rw [Targets.overloads, List.forall_mem_append]
        exact ⟨forall_member h.1, ih h.2⟩
  cases members with
  | none => exact fun t ht => absurd ht List.not_mem_nil
  | some members =>
      show ∀ t ∈ Targets.members sources module members, p t
      induction members with
      | nil => exact fun t ht => absurd ht List.not_mem_nil
      | cons entry rest ih =>
          replace h : ∀ value ∈ entry.2.flatMap Member.children
              ++ rest.flatMap (fun entry => entry.2.flatMap Member.children),
            ∀ t ∈ value.targets sources module, p t := h
          rw [List.forall_mem_append] at h
          rw [Targets.members, List.forall_mem_append]
          exact ⟨overloads entry.2 h.1, ih h.2⟩

/-- Of static members only functions are looked at. -/
theorem forall_statics? {statics : Option (List (String × Value))}
    (h : ∀ value ∈ (statics.getD []).map Prod.snd, ∀ t ∈ value.targets sources module, p t) :
    ∀ t ∈ Targets.statics? sources module statics, p t := by
  cases statics with
  | none => exact fun t ht => absurd ht List.not_mem_nil
  | some statics =>
      show ∀ t ∈ Targets.statics sources module statics, p t
      induction statics with
      | nil => exact fun t ht => absurd ht List.not_mem_nil
      | cons entry rest ih =>
          have here := h entry.2 List.mem_cons_self
          have there := ih fun other hother => h other (List.mem_cons_of_mem _ hother)
          unfold Targets.statics
          split
          · next hnil => cases hnil
          · next parameters defaults body rest' hcons =>
              obtain ⟨rfl, rfl⟩ := List.cons.inj hcons
              simp only [Value.targets, Node.targets, List.forall_mem_append] at here
              simp only [List.forall_mem_append]
              exact ⟨here.1, here.2, there⟩
          · next hcons =>
              obtain ⟨-, rfl⟩ := List.cons.inj hcons
              exact there

end Targets

theorem Node.forall_targets {node : Node}
    (reference : ∀ inner, node = .ref inner → ∀ t ∈ inner.targets sources module, p t)
    (h : ∀ value ∈ node.children, ∀ t ∈ value.targets sources module, p t) :
    ∀ t ∈ node.targets sources module, p t := by
  cases node with
  | cls base arity decorators members statics =>
      simp only [Node.children, List.forall_mem_append] at h
      obtain ⟨hmembers, hstatics, hbase, hdecorators⟩ := h
      simp only [Node.targets, List.forall_mem_append]
      exact ⟨Targets.forall_members? hmembers, Targets.forall_statics? hstatics,
        Targets.forall_value? hbase, Targets.forall_list? hdecorators⟩
  | iface | err => exact fun t ht => absurd ht List.not_mem_nil
  | func parameters defaults body =>
      simp only [Node.children, List.forall_mem_append] at h
      simp only [Node.targets, List.forall_mem_append]
      exact ⟨Targets.forall_list? h.1, Targets.forall_value? h.2⟩
  | ref inner => exact reference inner rfl
  | call callee arguments | construct callee arguments =>
      simp only [Node.children, List.forall_mem_cons] at h
      simp only [Node.targets, List.forall_mem_append]
      exact ⟨h.1, Targets.forall_list? h.2⟩
  | binary | index =>
      simp only [Node.children, List.forall_mem_cons] at h
      simp only [Node.targets, List.forall_mem_append]
      exact ⟨h.1, h.2.1⟩
  | cond =>
      simp only [Node.children, List.forall_mem_cons] at h
      simp only [Node.targets, List.forall_mem_append]
      exact ⟨h.1, h.2.1, h.2.2.1⟩
  | pre | select | spread => exact h _ List.mem_cons_self

/-- **A value that stays refers to declared names of its own module only.** -/
theorem Value.Everywhere.own_of_mem_targets {value : Value}
    (h : value.Everywhere (Value.Stays (sources.declares module))) :
    ∀ t ∈ value.targets sources module, t.1 = module ∧ sources.declares module t.2 = true := by
  induction h with
  | @intro value here _ ih =>
      cases value with
      | null | bool | num | str => exact fun t ht => absurd ht List.not_mem_nil
      | arr items => exact Targets.forall_list ih
      | obj entries => exact Targets.forall_entries ih
      | node node =>
          refine Node.forall_targets (fun reference isRef => ?_) ih
          subst isRef
          cases reference with
          | global name arguments =>
              rw [Reference.targets]
              split
              · next declared =>
                  intro t ht
                  rw [List.mem_singleton.1 ht]
                  exact ⟨rfl, declared⟩
              · exact Targets.forall_list? ih
          | imported specifier name arguments | default specifier flag arguments =>
              replace here : ModulePath.isRelative specifier = false := here
              rw [Reference.targets, if_neg (by simp [here])]
              exact Targets.forall_list? ih
          | module | bundled => exact fun t ht => absurd ht List.not_mem_nil

end FlatBundle
