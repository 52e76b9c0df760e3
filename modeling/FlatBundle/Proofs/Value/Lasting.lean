/-
  FlatBundle.Proofs.Value.Lasting
  ───────────────────────────────
  **A REWRITTEN VALUE IS READ BACK IF THE VALUE WAS.**

  Conversion goes through plain objects field by field, and they may be objects that were
  meant as nodes and are none.  It must not repair them.  What it puts in place of a
  reference is again a node, a reference to a name or an error; everything that is written
  for a node has the tag of one, which no class member has and which is no list; so the
  fields of a plain object fade, and it stays a plain object.

  The induction keeps both halves for a value (`Value.Lasts`): what is rewritten is stable,
  and what was written for the value fades into what is written for the rewritten one.
-/
import FlatBundle.Proofs.Value.FinalNames
import FlatBundle.Proofs.Value.Rereading

namespace FlatBundle

open Reading (ofJson ofItems ofPairs)

variable {sources : Sources} {replace replace' : Target → Value} {module : String}
variable {p : Value → Prop}

/-! ## §1. Replacements -/

/-- The value is a reference to a name, without arguments. -/
def Value.IsName : Value → Prop
  | .node (.ref (.global _ arguments)) | .node (.ref (.imported _ _ arguments)) => arguments = none
  | _ => False

/-- Only the replacements of names that are met count. -/
theorem Value.rewrite_congr {value : Value} (free : value.handles = [])
    (noHandles : ∀ t, (replace t).handles = [])
    (same : ∀ t ∈ value.targets sources module, replace t = replace' t) :
    value.rewrite sources replace module = value.rewrite sources replace' module := by
  -- putting final names in changes nothing where there is no handle
  have first := Value.finalize_of_handles .empty (value.rewrite sources replace module)
    (Value.handles_rewrite noHandles value free)
  have named : ∀ t ∈ value.targets sources module,
      (replace t).finalize .empty = .ok (replace' t) := by
    intro t ht
    rw [Value.finalize_of_handles .empty (replace t) (noHandles t), same t ht]
  have second := Value.finalize_rewrite value free named
  exact Except.ok.inj (first.symm.trans second)

/-! ## §2. What stands inside of a rewritten node -/

namespace Rewrite

theorem keys_entries (entries : List (String × Value)) :
    Pairs.keys (Rewrite.entries sources replace module entries) = Pairs.keys entries := by
  induction entries with
  | nil => rfl
  | cons entry rest ih => exact congrArg (entry.1 :: ·) ih

theorem keys_members? (members : Option (List (String × List Member))) :
    Pairs.keys ((Rewrite.members? sources replace module members).getD [])
      = Pairs.keys (members.getD []) := by
  cases members with
  | none => rfl
  | some members =>
      show Pairs.keys (Rewrite.members sources replace module members) = Pairs.keys members
      induction members with
      | nil => rfl
      | cons entry rest ih => exact congrArg (entry.1 :: ·) ih

/-- A static member is rewritten if it is a function, and copied if not. -/
theorem statics_cons (entry : String × Value) (rest : List (String × Value)) :
    ∃ value, Rewrite.statics sources replace module (entry :: rest)
        = (entry.1, value) :: Rewrite.statics sources replace module rest
      ∧ (value = entry.2 ∨ value = entry.2.rewrite sources replace module) := by
  obtain ⟨name, value⟩ := entry
  cases value with
  | node node =>
      cases node with
      | func => exact ⟨_, rfl, Or.inr rfl⟩
      | _ => exact ⟨_, rfl, Or.inl rfl⟩
  | _ => exact ⟨_, rfl, Or.inl rfl⟩

theorem keys_statics? (statics : Option (List (String × Value))) :
    Pairs.keys ((Rewrite.statics? sources replace module statics).getD [])
      = Pairs.keys (statics.getD []) := by
  cases statics with
  | none => rfl
  | some statics =>
      show Pairs.keys (Rewrite.statics sources replace module statics) = Pairs.keys statics
      induction statics with
      | nil => rfl
      | cons entry rest ih =>
          obtain ⟨value, split, -⟩ := statics_cons entry rest
          rw [split]
          exact congrArg (entry.1 :: ·) ih

theorem forall_list? {values : Option (List Value)}
    (h : ∀ value ∈ values.getD [], p (value.rewrite sources replace module)) :
    ∀ value ∈ (Rewrite.list? sources replace module values).getD [], p value := by
  rw [Rewrite.getD_list?, List.forall_mem_map]
  exact h

theorem forall_value? {value : Option Value}
    (h : ∀ inner ∈ value.toList, p (inner.rewrite sources replace module)) :
    ∀ inner ∈ (Rewrite.value? sources replace module value).toList, p inner := by
  rw [Rewrite.toList_value?, List.forall_mem_map]
  exact h

/-- What stands inside of a rewritten member; the parameters of a method are dropped. -/
theorem forall_member {member : Member}
    (h : ∀ child ∈ member.children, p (child.rewrite sources replace module)) :
    ∀ child ∈ (member.rewrite sources replace module).children, p child := by
  cases member with
  | property decorators => exact forall_list? h
  | constructor decorators parameterDecorators parameters =>
      simp only [Member.children, List.forall_mem_append] at h
      simp only [Member.rewrite, Member.children, List.forall_mem_append, flatMap_lists?,
        List.forall_mem_map]
      exact ⟨forall_list? h.1, h.2.1, forall_list? h.2.2⟩
  | method decorators parameterDecorators parameters =>
      simp only [Member.children, List.forall_mem_append] at h
      simp only [Member.rewrite, Member.children, List.forall_mem_append, flatMap_lists?,
        List.forall_mem_map]
      exact ⟨forall_list? h.1, h.2.1, fun child mem => absurd mem List.not_mem_nil⟩

theorem forall_members? {members : Option (List (String × List Member))}
    (h : ∀ child ∈ (members.getD []).flatMap (fun entry => entry.2.flatMap Member.children),
      p (child.rewrite sources replace module)) :
    ∀ child ∈ ((Rewrite.members? sources replace module members).getD []).flatMap
      (fun entry => entry.2.flatMap Member.children), p child := by
  have overloads : ∀ overloads : List Member,
      (∀ child ∈ overloads.flatMap Member.children, p (child.rewrite sources replace module)) →
      ∀ child ∈ (Rewrite.overloads sources replace module overloads).flatMap Member.children,
        p child := by
    intro overloads h
    induction overloads with
    | nil => exact fun child mem => absurd mem List.not_mem_nil
    | cons member rest ih =>
        rw [List.flatMap_cons, List.forall_mem_append] at h
        rw [Rewrite.overloads, List.flatMap_cons, List.forall_mem_append]
        exact ⟨forall_member h.1, ih h.2⟩
  cases members with
  | none => exact fun child mem => absurd mem List.not_mem_nil
  | some members =>
      show ∀ child ∈ (Rewrite.members sources replace module members).flatMap _, p child
      induction members with
      | nil => exact fun child mem => absurd mem List.not_mem_nil
      | cons entry rest ih =>
          replace h : ∀ child ∈ entry.2.flatMap Member.children
              ++ rest.flatMap (fun entry => entry.2.flatMap Member.children),
            p (child.rewrite sources replace module) := h
          rw [List.forall_mem_append] at h
          rw [Rewrite.members, List.flatMap_cons, List.forall_mem_append]
          exact ⟨overloads entry.2 h.1, ih h.2⟩

theorem forall_statics? {statics : Option (List (String × Value))}
    (own : ∀ value ∈ (statics.getD []).map Prod.snd, p value)
    (h : ∀ value ∈ (statics.getD []).map Prod.snd, p (value.rewrite sources replace module)) :
    ∀ value ∈ ((Rewrite.statics? sources replace module statics).getD []).map Prod.snd,
      p value := by
  cases statics with
  | none => exact own
  | some statics =>
      show ∀ value ∈ (Rewrite.statics sources replace module statics).map Prod.snd, p value
      induction statics with
      | nil => exact own
      | cons entry rest ih =>
          replace own : ∀ value ∈ entry.2 :: rest.map Prod.snd, p value := own
          replace h : ∀ value ∈ entry.2 :: rest.map Prod.snd,
            p (value.rewrite sources replace module) := h
          rw [List.forall_mem_cons] at own h
          obtain ⟨value, split, copied | rewritten⟩ :
              ∃ value, Rewrite.statics sources replace module (entry :: rest)
                  = (entry.1, value) :: Rewrite.statics sources replace module rest
                ∧ (value = entry.2 ∨ value = entry.2.rewrite sources replace module) :=
            statics_cons entry rest
          · rw [split, List.map_cons, List.forall_mem_cons, copied]
            exact ⟨own.1, ih own.2 h.2⟩
          · rw [split, List.map_cons, List.forall_mem_cons, rewritten]
            exact ⟨h.1, ih own.2 h.2⟩

end Rewrite

/-! ## §3. Rewritten nodes -/

/-- A node that may be read back, as what stands inside of it may. -/
structure Node.Sturdy (node : Node) : Prop where
  stable : node.Stable
  children : ∀ child ∈ node.children, child.Everywhere Value.Stable

theorem Node.Sturdy.exists_writtenAs {node : Node} (h : node.Sturdy) :
    ∃ fields, node.WrittenAs fields :=
  Node.exists_writtenAs h.stable fun child mem => (h.children child mem).rereads

/-- The error for a reference that has no counterpart in a bundle. -/
theorem sturdy_unsupportedReference (message specifier module : String) :
    ∃ node, unsupportedReference message specifier module = .node node ∧ node.Sturdy := by
  refine ⟨_, rfl, by simp [Node.Stable, Pairs.keys, Pairs.merge, Pairs.put], fun child mem => ?_⟩
  rw [List.mem_singleton.1 (show child ∈ [Value.str specifier] from mem)]
  exact .intro trivial (List.forall_mem_nil _)

section

variable (names : ∀ t, (replace t).IsName)

include names

theorem sturdy_replace (t : Target) : ∃ node, replace t = .node node ∧ node.Sturdy := by
  have name := names t
  cases value : replace t with
  | node node =>
      rw [value] at name
      cases node with
      | ref reference =>
          cases reference with
          | global _ arguments | imported _ _ arguments =>
              obtain rfl : arguments = none := name
              exact ⟨_, rfl, trivial, List.forall_mem_nil _⟩
          | _ => exact name.elim
      | _ => exact name.elim
  | _ => rw [value] at name; exact name.elim

theorem Reference.exists_rewrite (reference : Reference) :
    ∃ node, reference.rewrite sources replace module = .node node := by
  have replaced : ∀ t, ∃ node, replace t = .node node := by
    intro t
    obtain ⟨node, same, -⟩ := sturdy_replace names t
    exact ⟨node, same⟩
  cases reference with
  | global | imported =>
      rw [Reference.rewrite]
      split
      · exact replaced _
      · exact ⟨_, rfl⟩
  | default | module =>
      rw [Reference.rewrite]
      split <;> exact ⟨_, rfl⟩
  | bundled id => exact ⟨_, rfl⟩

/-- Nothing but `null` is rewritten to `null`. -/
theorem Value.rewrite_ne_null {value : Value} (ne : value ≠ .null) :
    value.rewrite sources replace module ≠ .null := by
  cases value with
  | null => exact absurd rfl ne
  | bool | num | str | arr | obj => exact nofun
  | node node =>
      cases node with
      | ref reference =>
          obtain ⟨node, same⟩ : ∃ node, reference.rewrite sources replace module = .node node :=
            Reference.exists_rewrite names reference
          rw [Value.rewrite, Node.rewrite, same]
          exact nofun
      | _ => exact nofun

theorem Rewrite.value?_ne_null {value : Option Value} (ne : value ≠ some .null) :
    Rewrite.value? sources replace module value ≠ some .null := by
  cases value with
  | none => exact nofun
  | some value =>
      have inner : value ≠ .null := fun null => ne (congrArg some null)
      exact fun same => Value.rewrite_ne_null names inner (Option.some.inj same)

theorem Reference.sturdy_rewrite {reference : Reference} (stable : (Node.ref reference).Stable)
    (ih : ∀ child ∈ reference.parts,
      (child.rewrite sources replace module).Everywhere Value.Stable) :
    ∃ node, reference.rewrite sources replace module = .node node ∧ node.Sturdy := by
  cases reference with
  | global name arguments =>
      rw [Reference.rewrite]
      split
      · exact sturdy_replace names _
      · exact ⟨_, rfl, trivial, Rewrite.forall_list? ih⟩
  | imported specifier name arguments =>
      rw [Reference.rewrite]
      split
      · exact sturdy_replace names _
      · exact ⟨_, rfl, trivial, Rewrite.forall_list? ih⟩
  | default specifier flag arguments =>
      rw [Reference.rewrite]
      split
      · exact sturdy_unsupportedReference _ _ _
      · exact ⟨_, rfl, trivial, Rewrite.forall_list? ih⟩
  | module specifier =>
      rw [Reference.rewrite]
      split
      · exact sturdy_unsupportedReference _ _ _
      · exact ⟨_, rfl, trivial, List.forall_mem_nil _⟩
  | bundled id => exact stable.elim

/-- **A node is rewritten to a node**, which may be read back if what stands inside of the
first one is rewritten to what may. -/
theorem Node.sturdy_rewrite {node : Node} (h : node.Sturdy)
    (ih : ∀ child ∈ node.children,
      (child.rewrite sources replace module).Everywhere Value.Stable) :
    ∃ node', node.rewrite sources replace module = .node node' ∧ node'.Sturdy := by
  cases node with
  | ref reference => exact Reference.sturdy_rewrite names h.stable ih
  | iface => exact ⟨_, rfl, h⟩
  | err => exact ⟨_, rfl, h.stable, h.children⟩
  | cls base arity decorators members statics =>
      obtain ⟨⟨ne, nodup, nodup'⟩, own⟩ := h
      simp only [Node.children, List.forall_mem_append] at own ih
      obtain ⟨hmembers, hstatics, hbase, hdecorators⟩ := ih
      refine ⟨_, rfl, ⟨?_, ?_, ?_⟩, ?_⟩
      · exact Rewrite.value?_ne_null names ne
      · rw [Rewrite.keys_members?]
        exact nodup
      · rw [Rewrite.keys_statics?]
        exact nodup'
      · simp only [Node.children, List.forall_mem_append]
        exact ⟨Rewrite.forall_members? hmembers, Rewrite.forall_statics? own.2.1 hstatics,
          Rewrite.forall_value? hbase, Rewrite.forall_list? hdecorators⟩
  | func parameters defaults body =>
      simp only [Node.children, List.forall_mem_append] at ih
      refine ⟨_, rfl, ?_, ?_⟩
      · exact Rewrite.value?_ne_null names h.stable
      · simp only [Node.children, List.forall_mem_append]
        exact ⟨Rewrite.forall_list? ih.1, Rewrite.forall_value? ih.2⟩
  | binary | index | cond | pre | select | spread =>
      refine ⟨_, rfl, trivial, ?_⟩
      simpa [Node.children] using ih
  | call callee arguments | construct callee arguments =>
      simp only [Node.children, List.forall_mem_cons] at ih
      refine ⟨_, rfl, trivial, ?_⟩
      simp only [Node.children, List.forall_mem_cons]
      exact ⟨ih.1, Rewrite.forall_list? ih.2⟩

end

/-! ## §4. Rewritten values -/

/-- Rewriting leaves the value one that is read back, and adds no way to read what is
written for it. -/
structure Value.Lasts (sources : Sources) (replace : Target → Value) (module : String)
    (value : Value) : Prop where
  everywhere : (value.rewrite sources replace module).Everywhere Value.Stable
  fades : ∀ first second, value.encode? = some first →
    (value.rewrite sources replace module).encode? = some second →
    (Reading.ofJson first).Fades (Reading.ofJson second)

theorem fades_list {items : List Value} (h : ∀ item ∈ items, item.Lasts sources replace module)
    {first second : List Json} (written : Encode.list? items = some first)
    (written' : Encode.list? (Rewrite.list sources replace module items) = some second) :
    Reading.Fades (.list (ofItems first)) (.list (ofItems second)) := by
  induction items generalizing first second with
  | nil =>
      obtain rfl := Option.some.inj written
      obtain rfl := Option.some.inj written'
      exact .nil
  | cons item rest ih =>
      obtain ⟨tree, here, written⟩ := Option.bind_eq_some_iff.1 written
      obtain ⟨others, there, same⟩ := Option.bind_eq_some_iff.1 written
      obtain ⟨tree', here', written'⟩ := Option.bind_eq_some_iff.1 written'
      obtain ⟨others', there', same'⟩ := Option.bind_eq_some_iff.1 written'
      rw [← Option.some.inj same, ← Option.some.inj same']
      exact .cons ((h item List.mem_cons_self).fades tree tree' here here')
        (ih (fun other hother => h other (List.mem_cons_of_mem _ hother)) there there')

theorem fieldsFade_entries {entries : List (String × Value)}
    (h : ∀ value ∈ entries.map Prod.snd, value.Lasts sources replace module)
    {first second : List (String × Json)} (written : Encode.entries? entries = some first)
    (written' : Encode.entries? (Rewrite.entries sources replace module entries) = some second) :
    Reading.FieldsFade (ofPairs first) (ofPairs second) := by
  induction entries generalizing first second with
  | nil =>
      obtain rfl := Option.some.inj written
      obtain rfl := Option.some.inj written'
      exact .nil
  | cons entry rest ih =>
      obtain ⟨tree, here, written⟩ := Option.bind_eq_some_iff.1 written
      obtain ⟨others, there, same⟩ := Option.bind_eq_some_iff.1 written
      obtain ⟨tree', here', written'⟩ := Option.bind_eq_some_iff.1 written'
      obtain ⟨others', there', same'⟩ := Option.bind_eq_some_iff.1 written'
      rw [← Option.some.inj same, ← Option.some.inj same']
      exact .cons ⟨rfl, (h entry.2 List.mem_cons_self).fades tree tree' here here'⟩
        (ih (fun other hother => h other (List.mem_cons_of_mem _ hother)) there there')

/-- **A value that is read back is rewritten to one that is**, where references are replaced
by references to names. -/
theorem Value.Everywhere.lasts (names : ∀ t, (replace t).IsName) {value : Value}
    (h : value.Everywhere Value.Stable) : value.Lasts sources replace module := by
  induction h with
  | @intro value here inside ih =>
      cases value with
      | null | bool | num | str =>
          refine ⟨.intro trivial (List.forall_mem_nil _), fun first second written written' => ?_⟩
          obtain rfl := Option.some.inj (written.symm.trans written')
          obtain rfl := Option.some.inj written
          exact .scalar _
      | arr items =>
          replace ih : ∀ item ∈ items, item.Lasts sources replace module := ih
          refine ⟨.intro trivial fun child mem => ?_, fun first second written written' => ?_⟩
          · replace mem : child ∈ Rewrite.list sources replace module items := mem
            rw [Rewrite.list_eq_map] at mem
            obtain ⟨item, hitem, rfl⟩ := List.mem_map.1 mem
            exact (ih item hitem).everywhere
          · obtain ⟨trees, there, same⟩ := Option.bind_eq_some_iff.1 written
            obtain ⟨trees', there', same'⟩ := Option.bind_eq_some_iff.1 written'
            rw [← Option.some.inj same, ← Option.some.inj same']
            exact fades_list ih there there'
      | obj entries =>
          replace ih : ∀ value ∈ entries.map Prod.snd, value.Lasts sources replace module := ih
          obtain ⟨nodup, plain⟩ := here
          have rereads : ∀ child ∈ entries.map Prod.snd, child.Rereads :=
            fun child mem => (inside child mem).rereads
          obtain ⟨fields, there, -⟩ := Encode.rereads_entries rereads
          refine ⟨.intro ⟨?_, fun fields' there' => ?_⟩ fun child mem => ?_,
            fun first second written written' => ?_⟩
          · rw [Rewrite.keys_entries]
            exact nodup
          · exact (fieldsFade_entries ih there there').node?_eq_none (plain fields there)
          · replace mem : child ∈ (Rewrite.entries sources replace module entries).map Prod.snd :=
              mem
            rw [Rewrite.snd_entries] at mem
            obtain ⟨inner, hinner, rfl⟩ := List.mem_map.1 mem
            exact (ih inner hinner).everywhere
          · obtain ⟨trees, there, same⟩ := Option.bind_eq_some_iff.1 written
            obtain ⟨trees', there', same'⟩ := Option.bind_eq_some_iff.1 written'
            rw [← Option.some.inj same, ← Option.some.inj same']
            exact (fieldsFade_entries ih there there').ofFields
      | node node =>
          have sturdy : node.Sturdy := ⟨here, inside⟩
          obtain ⟨node', rewritten, sturdy'⟩ :=
            Node.sturdy_rewrite names sturdy fun child mem => (ih child mem).everywhere
          have whole : (Value.node node).rewrite sources replace module = .node node' := rewritten
          refine ⟨?_, fun first second written written' => ?_⟩
          · rw [whole]
            exact .intro sturdy'.stable sturdy'.children
          · rw [whole] at written'
            obtain ⟨fields, writtenAs⟩ := sturdy.exists_writtenAs
            obtain ⟨fields', writtenAs'⟩ := sturdy'.exists_writtenAs
            obtain rfl := Option.some.inj (writtenAs.encode.symm.trans written)
            obtain rfl := Option.some.inj (writtenAs'.encode.symm.trans written')
            exact Reading.Fades.tagged writtenAs'.tag

end FlatBundle
