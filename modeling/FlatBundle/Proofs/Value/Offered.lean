/-
  FlatBundle.Proofs.Value.Offered
  ───────────────────────────────
  **WHAT IS READ OFF A TREE STANDS IN ITS PARTS.**

  The readings of a tree carry finished values, and nodes are put together from them.  A
  reading `Offers` the values that can be taken out of it: what it is itself, what its parts
  offer, and what stands inside of the class member that it is.  A reader that has nothing
  in its results but what the reading offers `Takes` from it.  All readers of fields do, so
  the children of a node are offered by the fields that it is read off
  (`Reading.fieldsOffer_nodeOf?`), whatever one wants to know of them; and so are the values
  of a document (`Reading.takes_document?`).
-/
import FlatBundle.Proofs.Value.Children
import FlatBundle.Proofs.Value.Parsed

namespace FlatBundle.Reading

variable {α : Type} {read? : Reading → Option α} {contents : α → List Value}
variable {fields : List (String × Reading)}

/-! ## §1. Offers -/

/-- The value can be taken out of the reading. -/
inductive Offers : Reading → Value → Prop where
  /-- What it is itself. -/
  | self (r : Reading) : Offers r r.value
  | item {items : List Reading} {item : Reading} {v : Value} (mem : item ∈ items)
      (offers : Offers item v) : Offers (.list items) v
  | field {fields : List (String × Reading)} {value v : Value} {member : Option Member}
      {field : String × Reading} (mem : field ∈ fields) (offers : Offers field.2 v) :
      Offers (.object fields value member) v
  /-- What stands inside of the member that an object is. -/
  | member {fields : List (String × Reading)} {value v : Value} {member : Member}
      (mem : v ∈ member.children) : Offers (.object fields value (some member)) v

/-- One of the fields offers the value. -/
def FieldsOffer (fields : List (String × Reading)) (v : Value) : Prop :=
  ∃ field ∈ fields, field.2.Offers v

/-- The reader has nothing in its results but what is offered. -/
def Takes (read? : Reading → Option α) (contents : α → List Value) : Prop :=
  ∀ r a, read? r = some a → ∀ v ∈ contents a, r.Offers v

/-! ## §2. Readers of parts -/

theorem takes_value : Takes (fun r => some r.value) fun value => [value] := by
  intro r value h v mem
  rw [List.mem_singleton.1 mem, ← Option.some.inj h]
  exact .self r

/-- What is taken from the items of a list. -/
theorem Takes.items (h : Takes read? contents) :
    Takes (fun r => r.list?.bind (·.mapM read?)) (·.flatMap contents) := by
  intro r as made v mem
  obtain ⟨a, ha, hv⟩ := List.mem_flatMap.1 mem
  cases r with
  | scalar json => cases made
  | object _ _ _ => cases made
  | list items =>
      obtain ⟨item, hitem, hmade⟩ := exists_of_mem_mapM made ha
      exact .item hitem (h item a hmade v hv)

theorem takes_values? : Takes values? fun values => values := by
  intro r values made v mem
  cases r with
  | scalar json => cases made
  | object _ _ _ => cases made
  | list items =>
      rw [← Option.some.inj made] at mem
      obtain ⟨item, hitem, rfl⟩ := List.mem_map.1 mem
      exact .item hitem (.self item)

theorem fieldsOffer_merge {v : Value}
    (mem : v ∈ (Pairs.merge (fields.map fun field => (field.1, field.2.value))).map Prod.snd) :
    FieldsOffer fields v := by
  obtain ⟨entry, hentry, rfl⟩ := List.mem_map.1 mem
  obtain ⟨other, hother, same⟩ := Pairs.mem_merge hentry
  obtain ⟨field, hfield, rfl⟩ := List.mem_map.1 hother
  rw [same]
  exact ⟨field, hfield, .self field.2⟩

theorem takes_map? : Takes map? fun entries => entries.map Prod.snd := by
  intro r entries made v mem
  cases r with
  | scalar json => cases made
  | list _ => cases made
  | object fields _ _ =>
      rw [← Option.some.inj made] at mem
      obtain ⟨field, hfield, offers⟩ := fieldsOffer_merge mem
      exact .field hfield offers

theorem Takes.orNull (h : Takes read? contents) (all : Option α → List Value)
    (nothing : all none = []) (something : ∀ a, all (some a) = contents a) :
    Takes (orNull read?) all := by
  intro r a made v mem
  unfold Reading.orNull at made
  split at made
  · rw [← Option.some.inj made, nothing] at mem
    exact absurd mem List.not_mem_nil
  · obtain ⟨b, hb, rfl⟩ := Option.map_eq_some_iff.1 made
    rw [something] at mem
    exact h _ b hb v mem

theorem takes_parameterDecorators? :
    Takes parameterDecorators? fun lists => lists.flatMap (·.getD []) :=
  (takes_values?.orNull (·.getD []) rfl fun _ => rfl).items

/-! ## §3. Readers of fields -/

theorem mem_of_field? {name : String} {r : Reading} (h : field? fields name = some (some r)) :
    (name, r) ∈ fields := by
  unfold field? at h
  split at h
  · cases h
  · next field only =>
      have mem : field ∈ fields.filter (·.1 = name) := only ▸ List.mem_cons_self
      obtain ⟨here, same⟩ := List.mem_filter.1 mem
      rw [← Option.some.inj (Option.some.inj h), ← of_decide_eq_true same]
      exact here
  · cases h

theorem Takes.required (h : Takes read? contents) {name : String} {a : α}
    (made : required? fields name read? = some a) : ∀ v ∈ contents a, FieldsOffer fields v := by
  obtain ⟨field, hfield, hread⟩ := Option.bind_eq_some_iff.1 made
  obtain ⟨r, rfl, hr⟩ := Option.bind_eq_some_iff.1 hread
  exact fun v mem => ⟨(name, r), mem_of_field? hfield, h r a hr v mem⟩

/-- A field that may be absent, where `all` is what is in its result. -/
theorem Takes.optional (h : Takes read? contents) (all : Option α → List Value)
    (nothing : all none = []) (something : ∀ a, all (some a) = contents a) {name : String}
    {a : Option α} (made : optional? fields name read? = some a) :
    ∀ v ∈ all a, FieldsOffer fields v := by
  obtain ⟨field, hfield, hread⟩ := Option.bind_eq_some_iff.1 made
  cases field with
  | none =>
      rw [← Option.some.inj hread, nothing]
      exact fun v mem => absurd mem List.not_mem_nil
  | some r =>
      exact fun v mem => ⟨(name, r), mem_of_field? hfield,
        h.orNull all nothing something r a hread v mem⟩

/-- What is found in a field that may be absent is read from that, and is not `null`. -/
theorem exists_of_optional? {name : String} {a : α}
    (made : optional? fields name read? = some (some a)) :
    ∃ r, (name, r) ∈ fields ∧ r ≠ .scalar .null ∧ read? r = some a := by
  obtain ⟨field, hfield, hread⟩ := Option.bind_eq_some_iff.1 made
  cases field with
  | none => cases hread
  | some r =>
      replace hread : Reading.orNull read? r = some (some a) := hread
      unfold Reading.orNull at hread
      split at hread
      · cases hread
      · next ne =>
          obtain ⟨b, hb, same⟩ := Option.map_eq_some_iff.1 hread
          exact ⟨r, mem_of_field? hfield, ne, hb.trans same⟩

theorem Takes.defaulted (h : Takes read? contents) {name : String} {default a : α}
    (nothing : contents default = []) (made : defaulted? fields name default read? = some a) :
    ∀ v ∈ contents a, FieldsOffer fields v := by
  obtain ⟨field, hfield, hread⟩ := Option.bind_eq_some_iff.1 made
  cases field with
  | none =>
      rw [← Option.some.inj hread, nothing]
      exact fun v mem => absurd mem List.not_mem_nil
  | some r => exact fun v mem => ⟨(name, r), mem_of_field? hfield, h r a hread v mem⟩

/-- A list of values in a field that may be absent. -/
theorem fieldsOffer_values? {name : String} {values : Option (List Value)}
    (made : optional? fields name values? = some values) :
    ∀ v ∈ values.getD [], FieldsOffer fields v :=
  takes_values?.optional (·.getD []) rfl (fun _ => rfl) made

/-! ## §4. Members, references and nodes -/

theorem fieldsOffer_memberOf? {tag : MemberTag} {member : Member}
    (made : memberOf? tag fields = some member) : ∀ v ∈ member.children, FieldsOffer fields v := by
  unfold memberOf? at made
  obtain ⟨decorators, hdecorators, made⟩ := Option.bind_eq_some_iff.1 made
  cases tag with
  | property =>
      rw [← Option.some.inj made]
      exact fieldsOffer_values? hdecorators
  | constructor | method =>
      let all : Option (List (Option (List Value))) → List Value :=
        fun lists => (lists.getD []).flatMap (·.getD [])
      obtain ⟨parameterDecorators, hlists, made⟩ := Option.bind_eq_some_iff.1 made
      obtain ⟨parameters, hparameters, made⟩ := Option.bind_eq_some_iff.1 made
      rw [← Option.some.inj made]
      simp only [Member.children, List.forall_mem_append]
      exact ⟨fieldsOffer_values? hdecorators,
        takes_parameterDecorators?.optional all rfl (fun _ => rfl) hlists,
        fieldsOffer_values? hparameters⟩

theorem takes_member? : Takes member? Member.children := by
  intro r member made v mem
  cases r with
  | scalar json => cases made
  -- written as a list, the fields stand in order behind the tag
  | list items =>
      cases items with
      | nil => cases made
      | cons head items =>
          obtain ⟨tag, -, made⟩ := Option.bind_eq_some_iff.1 made
          replace made : (if (memberFields tag).length < items.length then none
            else memberOf? tag ((memberFields tag).zip items)) = some member := made
          split at made
          · cases made
          · obtain ⟨field, hfield, offers⟩ := fieldsOffer_memberOf? made v mem
            exact .item (List.mem_cons_of_mem _ (List.of_mem_zip hfield).2) offers
  | object fields value other =>
      obtain rfl : other = some member := made
      exact .member mem

/-- The members of one name in an object of members. -/
def overloads? (field : String × Reading) : Option (String × List Member) := do
  return (field.1, ← (← field.2.list?).mapM member?)

theorem members?_object (fields : List (String × Reading)) (value : Value)
    (member : Option Member) :
    members? (.object fields value member) = (fields.mapM overloads?).map Pairs.merge := by
  show (fields.mapM overloads?).bind _ = _
  cases fields.mapM overloads? <;> rfl

theorem takes_members? :
    Takes members? fun members => members.flatMap fun entry => entry.2.flatMap Member.children := by
  intro r members made v mem
  cases r with
  | scalar json => cases made
  | list _ => cases made
  | object fields _ _ =>
      rw [members?_object] at made
      obtain ⟨read, hread, rfl⟩ := Option.map_eq_some_iff.1 made
      obtain ⟨entry, hentry, hv⟩ := List.mem_flatMap.1 mem
      -- of members under one name the last counts, and each was read on its own
      obtain ⟨other, hother, same⟩ := Pairs.mem_merge hentry
      obtain ⟨field, hfield, hmade⟩ := exists_of_mem_mapM hread hother
      obtain ⟨items, hlist, hmade⟩ := Option.bind_eq_some_iff.1 hmade
      obtain ⟨overloads, hoverloads, hmade⟩ := Option.bind_eq_some_iff.1 hmade
      rw [same, ← Option.some.inj hmade] at hv
      have made : (field.2.list?.bind (·.mapM member?)) = some overloads := by
        rw [hlist]
        exact hoverloads
      exact .field hfield (takes_member?.items field.2 overloads made v hv)

/-- What stands inside of a reference are its arguments, whatever its form. -/
theorem fieldsOffer_reference? {reference : Reference}
    (made : reference? fields = some reference) :
    ∀ v ∈ reference.parts, FieldsOffer fields v := by
  simp only [reference?, Option.orElse_eq_orElse, Option.orElse_eq_or, Option.or_eq_some_iff,
    Option.bind_eq_bind, Option.bind_eq_some_iff, Option.pure_def, Option.some.injEq] at made
  rcases made with ⟨module, -, name, -, args, hargs, rfl⟩ | ⟨-, made⟩
  · exact fieldsOffer_values? hargs
  · rcases made with ⟨module, -, flag, -, args, hargs, rfl⟩ | ⟨-, made⟩
    · exact fieldsOffer_values? hargs
    · rcases made with ⟨module, -, rfl⟩ | ⟨-, name, -, args, hargs, rfl⟩
      · exact fun v mem => absurd mem List.not_mem_nil
      · exact fieldsOffer_values? hargs

/-- **The children of a node are offered by the fields that it is read off.** -/
theorem fieldsOffer_nodeOf? {tag : NodeTag} {node : Node} (made : nodeOf? tag fields = some node) :
    ∀ v ∈ node.children, FieldsOffer fields v := by
  have value : ∀ {name value}, valueField? fields name = some value → FieldsOffer fields value :=
    fun hvalue => takes_value.required hvalue _ List.mem_cons_self
  have value? : ∀ {name value}, optional? fields name (fun r => some r.value) = some value →
      ∀ v ∈ value.toList, FieldsOffer fields v :=
    fun hvalue => takes_value.optional Option.toList rfl (fun _ => rfl) hvalue
  have map? : ∀ {name entries}, optional? fields name Reading.map? = some entries →
      ∀ v ∈ (entries.getD []).map Prod.snd, FieldsOffer fields v :=
    fun hentries => takes_map?.optional (fun entries => (entries.getD []).map Prod.snd) rfl
      (fun _ => rfl) hentries
  cases tag <;>
    simp only [Reading.nodeOf?, Option.bind_eq_bind, Option.bind_eq_some_iff, Option.pure_def,
      Option.some.injEq, Option.map_eq_some_iff] at made
  case cls =>
    obtain ⟨base, hbase, arity, -, decorators, hdecorators, members, hmembers, statics, hstatics,
      rfl⟩ := made
    let all : Option (List (String × List Member)) → List Value :=
      fun members => (members.getD []).flatMap fun entry => entry.2.flatMap Member.children
    simp only [Node.children, List.forall_mem_append]
    exact ⟨takes_members?.optional all rfl (fun _ => rfl) hmembers, map? hstatics, value? hbase,
      fieldsOffer_values? hdecorators⟩
  case iface =>
    rw [← made]
    exact fun v mem => absurd mem List.not_mem_nil
  case func =>
    obtain ⟨parameters, -, defaults, hdefaults, body, hbody, rfl⟩ := made
    simp only [Node.children, List.forall_mem_append]
    exact ⟨fieldsOffer_values? hdefaults, value? hbody⟩
  case err =>
    obtain ⟨message, -, line, -, character, -, context, hcontext, module, -, rfl⟩ := made
    exact map? hcontext
  case ref =>
    obtain ⟨reference, hreference, rfl⟩ := made
    exact fieldsOffer_reference? hreference
  case binary =>
    obtain ⟨operator, -, left, hleft, right, hright, rfl⟩ := made
    simp [Node.children, value hleft, value hright]
  case index =>
    obtain ⟨expression, hexpression, index, hindex, rfl⟩ := made
    simp [Node.children, value hexpression, value hindex]
  case pre =>
    obtain ⟨operator, -, operand, hoperand, rfl⟩ := made
    simp [Node.children, value hoperand]
  case cond =>
    obtain ⟨condition, hcondition, thenValue, hthen, elseValue, helse, rfl⟩ := made
    simp [Node.children, value hcondition, value hthen, value helse]
  case call | construct =>
    obtain ⟨callee, hcallee, arguments, harguments, rfl⟩ := made
    simp only [Node.children, List.forall_mem_cons]
    exact ⟨value hcallee, fieldsOffer_values? harguments⟩
  case select =>
    obtain ⟨expression, hexpression, member, -, rfl⟩ := made
    simp [Node.children, value hexpression]
  case spread =>
    obtain ⟨expression, hexpression, rfl⟩ := made
    simp [Node.children, value hexpression]

/-! ## §5. Documents -/

/-- What the fields of a record offer, the record offers, in either way of writing it. -/
theorem offers_of_record? {names : List String} {r : Reading}
    (made : r.record? names = some fields) {v : Value} (offer : FieldsOffer fields v) :
    r.Offers v := by
  obtain ⟨field, hfield, offers⟩ := offer
  cases r with
  | scalar json => cases made
  | list items =>
      replace made : (if names.length < items.length then none else some (names.zip items))
        = some fields := made
      split at made
      · cases made
      · rw [← Option.some.inj made] at hfield
        exact .item (List.of_mem_zip hfield).2 offers
  | object =>
      rw [← Option.some.inj made] at hfield
      exact .field hfield offers

/-- **The values of a document are offered by what it is read off.** -/
theorem takes_document? : Takes document? fun document => document.entries.toList.map Prod.snd := by
  intro r document made v mem
  obtain ⟨fields, hfields, made⟩ := Option.bind_eq_some_iff.1 made
  obtain ⟨_, -, made⟩ := Option.bind_eq_some_iff.1 made
  obtain ⟨version, -, made⟩ := Option.bind_eq_some_iff.1 made
  obtain ⟨entries, hentries, made⟩ := Option.bind_eq_some_iff.1 made
  obtain ⟨exports, -, made⟩ := Option.bind_eq_some_iff.1 made
  obtain ⟨importAs, -, made⟩ := Option.bind_eq_some_iff.1 made
  rw [← Option.some.inj made] at mem
  obtain ⟨entry, hentry, rfl⟩ := List.mem_map.1 mem
  obtain ⟨other, hother, same⟩ := Pairs.mem_merge hentry
  rw [same]
  exact offers_of_record? hfields
    (takes_map?.defaulted rfl hentries other.2 (List.mem_map_of_mem hother))

end FlatBundle.Reading
