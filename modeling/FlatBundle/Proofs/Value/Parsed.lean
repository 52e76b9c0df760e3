/-
  FlatBundle.Proofs.Value.Parsed
  ──────────────────────────────
  **WHAT IS READ FROM A TEXT HAS NO HANDLES.**

  A handle has no written form, and nothing that is read becomes one.  The readings of
  a tree carry values that are finished already, so the statement is about them: in a
  reading that is handle free no part has a handle (`Reading.HandleFree`), and whatever
  is read off such parts has none either.  A reader that makes only things with a
  property, of handle-free parts, `Makes` them; the readers of nodes, members and
  documents are put together from such readers.
-/
import FlatBundle.Metadata.Text
import FlatBundle.Proofs.Value.Handles

namespace FlatBundle

/-! ## §1. Handles of lists -/

theorem Handles.list_eq_nil_iff (values : List Value) :
    Handles.list values = [] ↔ ∀ value ∈ values, value.handles = [] := by
  induction values with
  | nil => simp [Handles.list]
  | cons value rest ih => simp [Handles.list, ih]

theorem Handles.entries_eq_nil_iff (entries : List (String × Value)) :
    Handles.entries entries = [] ↔ ∀ entry ∈ entries, entry.2.handles = [] := by
  induction entries with
  | nil => simp [Handles.entries]
  | cons entry rest ih =>
      obtain ⟨name, value⟩ := entry
      simp [Handles.entries, ih]

theorem Handles.lists_eq_nil_iff (lists : List (Option (List Value))) :
    Handles.lists lists = [] ↔ ∀ decorators ∈ lists, Handles.list? decorators = [] := by
  induction lists with
  | nil => simp [Handles.lists]
  | cons decorators rest ih => simp [Handles.lists, ih]

theorem Handles.overloads_eq_nil_iff (overloads : List Member) :
    Handles.overloads overloads = [] ↔ ∀ member ∈ overloads, member.handles = [] := by
  induction overloads with
  | nil => simp [Handles.overloads]
  | cons member rest ih => simp [Handles.overloads, ih]

theorem Handles.members_eq_nil_iff (members : List (String × List Member)) :
    Handles.members members = [] ↔ ∀ entry ∈ members, Handles.overloads entry.2 = [] := by
  induction members with
  | nil => simp [Handles.members]
  | cons entry rest ih =>
      obtain ⟨name, overloads⟩ := entry
      simp [Handles.members, ih]

theorem Pairs.mem_put {α : Type} {name : String} {value : α} {pairs : List (String × α)}
    {pair : String × α} (h : pair ∈ Pairs.put name value pairs) :
    pair ∈ pairs ∨ pair.2 = value := by
  induction pairs with
  | nil =>
      rw [List.mem_singleton.1 h]
      exact Or.inr rfl
  | cons first rest ih =>
      obtain ⟨key, old⟩ := first
      rw [Pairs.put] at h
      split at h
      · rcases List.mem_cons.1 h with rfl | h
        · exact Or.inr rfl
        · exact Or.inl (List.mem_cons_of_mem _ h)
      · rcases List.mem_cons.1 h with rfl | h
        · exact Or.inl List.mem_cons_self
        · exact (ih h).imp_left (List.mem_cons_of_mem _)

/-- Writing pairs one after the other puts in no value but theirs. -/
theorem Pairs.mem_merge {α : Type} {pairs : List (String × α)} {pair : String × α}
    (h : pair ∈ Pairs.merge pairs) : ∃ other ∈ pairs, pair.2 = other.2 := by
  -- the pairs written so far are an argument of the walk
  have walk : ∀ (rest acc : List (String × α)),
      pair ∈ rest.foldl (fun acc pair => Pairs.put pair.1 pair.2 acc) acc →
      pair ∈ acc ∨ ∃ other ∈ rest, pair.2 = other.2 := by
    intro rest
    induction rest with
    | nil => exact fun acc hmem => Or.inl hmem
    | cons next rest ih =>
        intro acc hmem
        rcases ih _ hmem with hput | ⟨other, hother, same⟩
        · exact (Pairs.mem_put hput).imp_right fun same => ⟨next, List.mem_cons_self, same⟩
        · exact Or.inr ⟨other, List.mem_cons_of_mem _ hother, same⟩
  exact (walk pairs [] h).resolve_left List.not_mem_nil

/-- What is read from a list is read from its members. -/
theorem exists_of_mem_mapM {α β : Type} {f : α → Option β} {items : List α} {results : List β}
    (h : items.mapM f = some results) {result : β} (mem : result ∈ results) :
    ∃ item ∈ items, f item = some result := by
  induction items generalizing results with
  | nil =>
      rw [← Option.some.inj h] at mem
      exact absurd mem List.not_mem_nil
  | cons item rest ih =>
      rw [List.mapM_cons] at h
      obtain ⟨first, hfirst, h⟩ := Option.bind_eq_some_iff.1 h
      obtain ⟨others, hothers, same⟩ := Option.bind_eq_some_iff.1 h
      rw [← Option.some.inj same] at mem
      rcases List.mem_cons.1 mem with rfl | mem
      · exact ⟨item, List.mem_cons_self, hfirst⟩
      · obtain ⟨other, hother, hmade⟩ := ih hothers mem
        exact ⟨other, List.mem_cons_of_mem _ hother, hmade⟩

/-! ## §2. Readings without handles -/

namespace Reading

/-- No part of the reading has a handle. -/
inductive HandleFree : Reading → Prop where
  | scalar (json : Json) : HandleFree (.scalar json)
  | list {items : List Reading} (items_free : ∀ item ∈ items, HandleFree item) :
      HandleFree (.list items)
  | object {fields : List (String × Reading)} {value : Value} {member : Option Member}
      (fields_free : ∀ field ∈ fields, HandleFree field.2) (value_free : value.handles = [])
      (member_free : ∀ m, member = some m → m.handles = []) :
      HandleFree (.object fields value member)

/-- The reader makes only things with the property, of parts without handles. -/
def Makes {α : Type} (read? : Reading → Option α) (p : α → Prop) : Prop :=
  ∀ r : Reading, r.HandleFree → ∀ a, read? r = some a → p a

/-- No field has a handle. -/
def FieldsFree (fields : List (String × Reading)) : Prop :=
  ∀ field ∈ fields, HandleFree field.2

mutual

theorem HandleFree.value : ∀ {r : Reading}, r.HandleFree → r.value.handles = []
  | .scalar json, _ => by cases json <;> rfl
  | .list items, h => by
      cases h with
      | list items_free => exact HandleFree.values items_free
  | .object _ _ _, h => by
      cases h with
      | object _ value_free _ => exact value_free

theorem HandleFree.values : ∀ {items : List Reading}, (∀ item ∈ items, item.HandleFree) →
    Handles.list (values items) = []
  | [], _ => rfl
  | item :: rest, h => by
      rw [Reading.values, Handles.list, HandleFree.value (h item List.mem_cons_self),
        HandleFree.values fun other hother => h other (List.mem_cons_of_mem _ hother)]
      rfl

end

/-! ## §3. Readers of parts -/

section

variable {α : Type} {read? : Reading → Option α} {p : α → Prop}

theorem makes_value : Makes (fun r => some r.value) fun value => value.handles = [] := by
  intro r free value h
  rw [← Option.some.inj h]
  exact free.value

/-- What the parts of a list are read as. -/
theorem Makes.items (h : Makes read? p) :
    Makes (fun r => r.list?.bind (·.mapM read?)) fun as => ∀ a ∈ as, p a := by
  intro r free as has
  obtain ⟨items, hlist, hread⟩ := Option.bind_eq_some_iff.1 has
  cases free with
  | scalar json => cases hlist
  | object _ _ _ => cases hlist
  | list items_free =>
      rw [← Option.some.inj hlist] at hread
      intro a ha
      obtain ⟨item, hitem, hmade⟩ := exists_of_mem_mapM hread ha
      exact h item (items_free item hitem) a hmade

theorem makes_values? : Makes values? fun values => Handles.list values = [] := by
  intro r free values h
  obtain ⟨items, hlist, rfl⟩ := Option.map_eq_some_iff.1 h
  cases free with
  | scalar json => cases hlist
  | object _ _ _ => cases hlist
  | list items_free =>
      rw [← Option.some.inj hlist, Handles.list_eq_nil_iff]
      intro value hvalue
      obtain ⟨item, hitem, rfl⟩ := List.mem_map.1 hvalue
      exact (items_free item hitem).value

/-- Named values are those of the fields. -/
theorem entries_merge_eq_nil {fields : List (String × Reading)} (free : FieldsFree fields) :
    Handles.entries (Pairs.merge (fields.map fun field => (field.1, field.2.value))) = [] := by
  rw [Handles.entries_eq_nil_iff]
  intro entry hentry
  obtain ⟨other, hother, same⟩ := Pairs.mem_merge hentry
  obtain ⟨field, hfield, rfl⟩ := List.mem_map.1 hother
  rw [same]
  exact (free field hfield).value

theorem makes_map? : Makes map? fun entries => Handles.entries entries = [] := by
  intro r free entries h
  cases free with
  | scalar json => cases h
  | list _ => cases h
  | object fields_free _ _ =>
      rw [← Option.some.inj h]
      exact entries_merge_eq_nil fields_free

theorem Makes.orNull (h : Makes read? p) : Makes (orNull read?) fun a => ∀ b, a = some b → p b := by
  intro r free a ha b hb
  subst hb
  unfold Reading.orNull at ha
  split at ha
  · cases ha
  · obtain ⟨b', hb', same⟩ := Option.map_eq_some_iff.1 ha
    rw [← Option.some.inj same]
    exact h _ free b' hb'

/-! ## §4. Readers of fields -/

variable {fields : List (String × Reading)}

theorem FieldsFree.of_field? (free : FieldsFree fields) {name : String} {r : Reading}
    (h : field? fields name = some (some r)) : r.HandleFree := by
  unfold field? at h
  split at h
  · cases h
  · next field only =>
      rw [← Option.some.inj (Option.some.inj h)]
      have mem : field ∈ fields.filter (·.1 = name) := by
        rw [only]
        exact List.mem_cons_self
      exact free field (List.mem_filter.1 mem).1
  · cases h

theorem Makes.required (h : Makes read? p) (free : FieldsFree fields) {name : String} {a : α}
    (ha : required? fields name read? = some a) : p a := by
  obtain ⟨field, hfield, hread⟩ := Option.bind_eq_some_iff.1 ha
  obtain ⟨r, rfl, hr⟩ := Option.bind_eq_some_iff.1 hread
  exact h r (free.of_field? hfield) a hr

theorem Makes.optional (h : Makes read? p) (free : FieldsFree fields) {name : String}
    {a : Option α} (ha : optional? fields name read? = some a) : ∀ b, a = some b → p b := by
  obtain ⟨field, hfield, hread⟩ := Option.bind_eq_some_iff.1 ha
  cases field with
  | none =>
      rw [← Option.some.inj hread]
      simp
  | some r => exact h.orNull r (free.of_field? hfield) a hread

theorem Makes.defaulted (h : Makes read? p) (free : FieldsFree fields) {name : String}
    {default : α} (hdefault : p default) {a : α}
    (ha : defaulted? fields name default read? = some a) : p a := by
  obtain ⟨field, hfield, hread⟩ := Option.bind_eq_some_iff.1 ha
  cases field with
  | none =>
      rw [← Option.some.inj hread]
      exact hdefault
  | some r => exact h r (free.of_field? hfield) a hread

end

/-! ## §5. Members, references and nodes -/

theorem Handles.list?_eq_nil {values : Option (List Value)}
    (h : ∀ vs, values = some vs → Handles.list vs = []) : Handles.list? values = [] := by
  cases values with
  | none => rfl
  | some vs => exact h vs rfl

theorem Handles.value?_eq_nil {value : Option Value} (h : ∀ v, value = some v → v.handles = []) :
    Handles.value? value = [] := by
  cases value with
  | none => rfl
  | some v => exact h v rfl

theorem Handles.entries?_eq_nil {entries : Option (List (String × Value))}
    (h : ∀ es, entries = some es → Handles.entries es = []) : Handles.entries? entries = [] := by
  cases entries with
  | none => rfl
  | some es => exact h es rfl

theorem makes_parameterDecorators? :
    Makes parameterDecorators? fun lists => Handles.lists lists = [] := by
  intro r free lists h
  rw [Handles.lists_eq_nil_iff]
  intro decorators hmem
  exact Handles.list?_eq_nil (makes_values?.orNull.items r free lists h decorators hmem)

variable {fields : List (String × Reading)}

theorem FieldsFree.memberOf? (free : FieldsFree fields) {tag : MemberTag} {member : Member}
    (h : Reading.memberOf? tag fields = some member) : member.handles = [] := by
  unfold Reading.memberOf? at h
  obtain ⟨decorators, hdecorators, h⟩ := Option.bind_eq_some_iff.1 h
  have first := Handles.list?_eq_nil (makes_values?.optional free hdecorators)
  -- a constructor and a method read the same two fields after the first
  have rest : ∀ {parameterDecorators parameters},
      optional? fields "parameterDecorators" parameterDecorators? = some parameterDecorators →
      optional? fields "parameters" values? = some parameters →
      Handles.lists? parameterDecorators = [] ∧ Handles.list? parameters = [] := by
    intro parameterDecorators parameters hlists hparameters
    refine ⟨?_, Handles.list?_eq_nil (makes_values?.optional free hparameters)⟩
    cases parameterDecorators with
    | none => rfl
    | some lists => exact makes_parameterDecorators?.optional free hlists lists rfl
  cases tag with
  | property =>
      rw [← Option.some.inj h]
      exact first
  | constructor =>
      obtain ⟨parameterDecorators, hlists, h⟩ := Option.bind_eq_some_iff.1 h
      obtain ⟨parameters, hparameters, h⟩ := Option.bind_eq_some_iff.1 h
      obtain ⟨second, third⟩ := rest hlists hparameters
      rw [← Option.some.inj h, Member.handles, first, second, third]
      rfl
  | method =>
      obtain ⟨parameterDecorators, hlists, h⟩ := Option.bind_eq_some_iff.1 h
      obtain ⟨parameters, hparameters, h⟩ := Option.bind_eq_some_iff.1 h
      obtain ⟨second, third⟩ := rest hlists hparameters
      rw [← Option.some.inj h, Member.handles, first, second, third]
      rfl

theorem makes_member? : Makes member? fun member => member.handles = [] := by
  intro r free member h
  cases free with
  | scalar json => cases h
  -- written as a list, the fields stand in order behind the tag
  | @list items items_free =>
      cases items with
      | nil => cases h
      | cons head items =>
          obtain ⟨tag, -, h⟩ := Option.bind_eq_some_iff.1 h
          replace h : (if (memberFields tag).length < items.length then none
            else memberOf? tag ((memberFields tag).zip items)) = some member := h
          split at h
          · cases h
          · have zipped : FieldsFree ((memberFields tag).zip items) := by
              intro field hfield
              exact items_free field.2 (List.mem_cons_of_mem _ (List.of_mem_zip hfield).2)
            exact zipped.memberOf? h
  | object _ _ member_free => exact member_free member h

theorem makes_members? : Makes members? fun members => Handles.members members = [] := by
  intro r free members h
  cases free with
  | scalar json => cases h
  | list _ => cases h
  | @object fields _ _ fields_free _ _ =>
      obtain ⟨read, hread, h⟩ := Option.bind_eq_some_iff.1 h
      rw [← Option.some.inj h, Handles.members_eq_nil_iff]
      intro entry hentry
      -- of members under one name the last counts, and each was read on its own
      obtain ⟨other, hother, same⟩ := Pairs.mem_merge hentry
      obtain ⟨field, hfield, hmade⟩ := exists_of_mem_mapM hread hother
      obtain ⟨items, hlist, hmade⟩ := Option.bind_eq_some_iff.1 hmade
      obtain ⟨overloads, hoverloads, hmade⟩ := Option.bind_eq_some_iff.1 hmade
      rw [same, ← Option.some.inj hmade, Handles.overloads_eq_nil_iff]
      have made : (field.2.list?.bind (·.mapM member?)) = some overloads := by
        rw [hlist]
        exact hoverloads
      exact makes_member?.items field.2 (fields_free field hfield) overloads made

/-- Each of the forms of a reference has handles in its arguments only. -/
theorem FieldsFree.reference? (free : FieldsFree fields) {reference : Reference}
    (h : Reading.reference? fields = some reference) : reference.handles = [] := by
  have arguments : ∀ {arguments}, optional? fields "arguments" Reading.values? = some arguments →
      Handles.list? arguments = [] :=
    fun hvalues => Handles.list?_eq_nil (makes_values?.optional free hvalues)
  simp only [Reading.reference?, Option.orElse_eq_orElse, Option.orElse_eq_or,
    Option.or_eq_some_iff, Option.bind_eq_bind, Option.bind_eq_some_iff, Option.pure_def,
    Option.some.injEq] at h
  -- the forms are tried in order; each has handles in its arguments at most
  rcases h with ⟨module, -, name, -, args, hargs, rfl⟩ | ⟨-, h⟩
  · exact arguments hargs
  · rcases h with ⟨module, -, flag, -, args, hargs, rfl⟩ | ⟨-, h⟩
    · exact arguments hargs
    · rcases h with ⟨module, -, rfl⟩ | ⟨-, name, -, args, hargs, rfl⟩
      · rfl
      · exact arguments hargs

theorem FieldsFree.nodeOf? (free : FieldsFree fields) {tag : NodeTag} {node : Node}
    (h : Reading.nodeOf? tag fields = some node) : node.handles = [] := by
  have value : ∀ {name value}, valueField? fields name = some value → value.handles = [] :=
    fun hvalue => makes_value.required free hvalue
  have value? : ∀ {name value}, optional? fields name (fun r => some r.value) = some value →
      Handles.value? value = [] :=
    fun hvalue => Handles.value?_eq_nil (makes_value.optional free hvalue)
  have values? : ∀ {name values}, optional? fields name Reading.values? = some values →
      Handles.list? values = [] :=
    fun hvalues => Handles.list?_eq_nil (makes_values?.optional free hvalues)
  have map? : ∀ {name entries}, optional? fields name Reading.map? = some entries →
      Handles.entries? entries = [] :=
    fun hentries => Handles.entries?_eq_nil (makes_map?.optional free hentries)
  -- the fields of a node are of four kinds, and read alike in all nodes
  cases tag <;>
    simp only [Reading.nodeOf?, Option.bind_eq_bind, Option.bind_eq_some_iff, Option.pure_def,
      Option.some.injEq, Option.map_eq_some_iff] at h
  case cls =>
    obtain ⟨base, hbase, arity, -, decorators, hdecorators, members, hmembers, statics, hstatics,
      rfl⟩ := h
    have inner : Handles.members? members = [] := by
      cases members with
      | none => rfl
      | some ms => exact makes_members?.optional free hmembers ms rfl
    rw [Node.handles, value? hbase, values? hdecorators, inner, map? hstatics]
    rfl
  case iface =>
    rw [← h]
    rfl
  case func =>
    obtain ⟨parameters, -, defaults, hdefaults, body, hbody, rfl⟩ := h
    rw [Node.handles, values? hdefaults, value? hbody]
    rfl
  case err =>
    obtain ⟨message, -, line, -, character, -, context, hcontext, module, -, rfl⟩ := h
    exact map? hcontext
  case ref =>
    obtain ⟨reference, hreference, rfl⟩ := h
    exact free.reference? hreference
  case binary =>
    obtain ⟨operator, -, left, hleft, right, hright, rfl⟩ := h
    rw [Node.handles, value hleft, value hright]
    rfl
  case index =>
    obtain ⟨expression, hexpression, index, hindex, rfl⟩ := h
    rw [Node.handles, value hexpression, value hindex]
    rfl
  case pre =>
    obtain ⟨operator, -, operand, hoperand, rfl⟩ := h
    exact value hoperand
  case cond =>
    obtain ⟨condition, hcondition, thenValue, hthen, elseValue, helse, rfl⟩ := h
    rw [Node.handles, value hcondition, value hthen, value helse]
    rfl
  case call =>
    obtain ⟨callee, hcallee, arguments, harguments, rfl⟩ := h
    rw [Node.handles, value hcallee, values? harguments]
    rfl
  case construct =>
    obtain ⟨callee, hcallee, arguments, harguments, rfl⟩ := h
    rw [Node.handles, value hcallee, values? harguments]
    rfl
  case select =>
    obtain ⟨expression, hexpression, member, -, rfl⟩ := h
    exact value hexpression
  case spread =>
    obtain ⟨expression, hexpression, rfl⟩ := h
    exact value hexpression

/-! ## §6. Trees and documents -/

/-- An object of parts without handles has none. -/
theorem FieldsFree.ofFields (free : FieldsFree fields) : (Reading.ofFields fields).HandleFree := by
  refine HandleFree.object free ?_ ?_
  · cases hnode : node? fields with
    | some node =>
        obtain ⟨tag, -, hnode⟩ := Option.bind_eq_some_iff.1 hnode
        exact free.nodeOf? hnode
    | none => exact entries_merge_eq_nil free
  · intro member hmember
    obtain ⟨tag, -, hmember⟩ := Option.bind_eq_some_iff.1 hmember
    exact free.memberOf? hmember

mutual

/-- **No tree reads as something with a handle.** -/
theorem handleFree_ofJson : ∀ json : Json, (ofJson json).HandleFree
  | .null | .bool _ | .num _ | .str _ => HandleFree.scalar _
  | .arr items => HandleFree.list (handleFree_ofItems items)
  | .obj fields => FieldsFree.ofFields (fieldsFree_ofPairs fields)

theorem handleFree_ofItems : ∀ items : List Json, ∀ r ∈ ofItems items, r.HandleFree
  | [], r, h => absurd h List.not_mem_nil
  | item :: rest, r, h => by
      rcases List.mem_cons.1 h with rfl | h
      · exact handleFree_ofJson item
      · exact handleFree_ofItems rest r h

theorem fieldsFree_ofPairs : ∀ fields : List (String × Json), FieldsFree (ofPairs fields)
  | [], field, h => absurd h List.not_mem_nil
  | (name, value) :: rest, field, h => by
      rcases List.mem_cons.1 h with rfl | h
      · exact handleFree_ofJson value
      · exact fieldsFree_ofPairs rest field h

end

/-- The fields of a record have no handles, in either way of writing it. -/
theorem makes_record? (names : List String) : Makes (record? names) FieldsFree := by
  intro r free fields h
  cases free with
  | scalar json => cases h
  | @list items items_free =>
      replace h : (if names.length < items.length then none else some (names.zip items))
        = some fields := h
      split at h
      · cases h
      · rw [← Option.some.inj h]
        intro field hfield
        exact items_free field.2 (List.of_mem_zip hfield).2
  | object fields_free _ _ =>
      rw [← Option.some.inj h]
      exact fields_free

theorem makes_document? : Makes document? Document.HandleFree := by
  intro r free document h
  obtain ⟨fields, hfields, h⟩ := Option.bind_eq_some_iff.1 h
  have fieldsFree := makes_record? documentFields r free fields hfields
  obtain ⟨_, -, h⟩ := Option.bind_eq_some_iff.1 h
  obtain ⟨version, -, h⟩ := Option.bind_eq_some_iff.1 h
  obtain ⟨entries, hentries, h⟩ := Option.bind_eq_some_iff.1 h
  obtain ⟨exports, -, h⟩ := Option.bind_eq_some_iff.1 h
  obtain ⟨importAs, -, h⟩ := Option.bind_eq_some_iff.1 h
  rw [← Option.some.inj h]
  -- of the five fields only the entries have values in them
  have none := makes_map?.defaulted fieldsFree rfl hentries
  rw [Handles.entries_eq_nil_iff] at none
  intro entry hentry
  obtain ⟨other, hother, same⟩ := Pairs.mem_merge hentry
  show entry.2.handles = []
  rw [same]
  exact none other hother

end Reading

/-- **A document that a text spells has no handles.** -/
theorem Document.handleFree_of_parse? {text : String} {document : Document}
    (h : Document.parse? text = some document) : document.HandleFree := by
  obtain ⟨draft, -, h⟩ := Option.bind_eq_some_iff.1 h
  obtain ⟨json, -, h⟩ := Option.bind_eq_some_iff.1 h
  exact Reading.makes_document? _ (Reading.handleFree_ofJson json) document h

end FlatBundle
