/-
  FlatBundle.Proofs.Value.Fading
  ──────────────────────────────
  **READINGS THAT FIT NOTHING NEW.**

  Whether an object is a node depends on what its fields can be read as, and on nothing
  else.  One reading `Fades` into another if that can be read as nothing that the first one
  could not be read as: what has no parts is the same, lists have the same length and fade
  item by item, and an object stays an object that gains no way to be a class member or the
  members of a class.

  Every reader of fields succeeds on the first reading if it does on the second one
  (`Reading.Reflects`).  So a plain object whose fields fade stays a plain object
  (`Reading.FieldsFade.node?_eq_none`), and what is written for a node is something that any
  object may fade into (`Reading.Fades.tagged`).
-/
import FlatBundle.Proofs.Value.Offered
import Mathlib.Data.List.Forall2

namespace FlatBundle.Reading

variable {α β : Type} {read? : Reading → Option α} {r r' : Reading}
variable {fields fields' : List (String × Reading)}

/-! ## §1. Fading -/

/-- The second reading can be read as nothing that the first one cannot be read as. -/
inductive Fades : Reading → Reading → Prop where
  | scalar (json : Json) : Fades (.scalar json) (.scalar json)
  | nil : Fades (.list []) (.list [])
  | cons {item item' : Reading} {items items' : List Reading} (first : Fades item item')
      (rest : Fades (.list items) (.list items')) :
      Fades (.list (item :: items)) (.list (item' :: items'))
  | object {fields fields' : List (String × Reading)} {value value' : Value}
      {member member' : Option Member} (single : member'.isSome → member.isSome)
      (many : (members? (.object fields' value' member')).isSome →
        (members? (.object fields value member)).isSome) :
      Fades (.object fields value member) (.object fields' value' member')

/-- Fields with the same names fade one by one. -/
def FieldsFade (fields fields' : List (String × Reading)) : Prop :=
  List.Forall₂ (fun field field' => field.1 = field'.1 ∧ field.2.Fades field'.2) fields fields'

/-- What the reader finds in a faded reading, it finds in the original. -/
def Agrees (read? : Reading → Option α) : Prop :=
  ∀ r r', Fades r r' → ∀ a, read? r' = some a → read? r = some a

/-- Where the reader succeeds on a faded reading, it does on the original. -/
def Reflects (read? : Reading → Option α) : Prop :=
  ∀ r r', Fades r r' → (read? r').isSome → (read? r).isSome

/-! ## §2. Readers of parts -/

theorem Agrees.reflects (h : Agrees read?) : Reflects read? := by
  intro r r' fades ok
  obtain ⟨a, ha⟩ := Option.isSome_iff_exists.1 ok
  rw [h r r' fades a ha]
  rfl

/-- A reader that looks at trees without parts only. -/
theorem agrees_of_scalar (scalars : ∀ r, (read? r).isSome → ∃ json, r = .scalar json) :
    Agrees read? := by
  intro r r' fades a ha
  obtain ⟨json, rfl⟩ := scalars r' (by rw [ha]; rfl)
  cases fades
  exact ha

theorem agrees_string? : Agrees string? := by
  refine agrees_of_scalar fun r ok => ?_
  cases r with
  | scalar json => exact ⟨json, rfl⟩
  | list | object => cases ok

theorem agrees_bool? : Agrees bool? := by
  refine agrees_of_scalar fun r ok => ?_
  cases r with
  | scalar json => exact ⟨json, rfl⟩
  | list | object => cases ok

theorem agrees_word? : Agrees word? := by
  refine agrees_of_scalar fun r ok => ?_
  cases r with
  | scalar json => exact ⟨json, rfl⟩
  | list | object => cases ok

theorem agrees_tagNumber? (names : List String) : Agrees (tagNumber? names) := by
  refine agrees_of_scalar fun r ok => ?_
  cases r with
  | scalar json => exact ⟨json, rfl⟩
  | list | object => cases ok

theorem Agrees.bind (h : Agrees read?) (f : α → Option β) : Agrees fun r => (read? r).bind f := by
  intro r r' fades b hb
  obtain ⟨a, ha, hb⟩ := Option.bind_eq_some_iff.1 hb
  show (read? r).bind f = some b
  rw [h r r' fades a ha]
  exact hb

theorem agrees_nodeTag? : Agrees nodeTag? :=
  (agrees_tagNumber? _).bind _

theorem agrees_memberTag? : Agrees memberTag? :=
  (agrees_tagNumber? _).bind _

theorem reflects_value : Reflects fun r => some r.value :=
  fun _ _ _ _ => rfl

theorem isSome_mapM_iff {f : α → Option β} {items : List α} :
    (items.mapM f).isSome ↔ ∀ item ∈ items, (f item).isSome := by
  induction items with
  | nil => simp
  | cons item rest ih =>
      rw [List.mapM_cons, List.forall_mem_cons, ← ih]
      cases f item with
      | none => simp
      | some b => cases rest.mapM f <;> simp

theorem Fades.exists_of_mem {items items' : List Reading} {item : Reading}
    (fades : Fades (.list items) (.list items')) (mem : item ∈ items) :
    ∃ item' ∈ items', item.Fades item' := by
  induction items generalizing items' with
  | nil => cases mem
  | cons first rest ih =>
      cases fades with
      | @cons _ item' _ items' here there =>
          rcases List.mem_cons.1 mem with rfl | mem
          · exact ⟨item', List.mem_cons_self, here⟩
          · obtain ⟨other, hother, fades⟩ := ih there mem
            exact ⟨other, List.mem_cons_of_mem _ hother, fades⟩

/-- A list fades into lists only. -/
theorem Fades.list? {items' : List Reading} (fades : r.Fades r') (h : r'.list? = some items') :
    ∃ items, r = .list items ∧ r' = .list items' := by
  cases fades with
  | scalar | object => cases h
  | nil =>
      obtain rfl := Option.some.inj h
      exact ⟨[], rfl, rfl⟩
  | cons first rest =>
      obtain rfl := Option.some.inj h
      exact ⟨_, rfl, rfl⟩

theorem Reflects.items (h : Reflects read?) :
    Reflects fun r => r.list?.bind (·.mapM read?) := by
  intro r r' fades ok
  obtain ⟨as, made⟩ := Option.isSome_iff_exists.1 ok
  obtain ⟨items', hlist, hread⟩ := Option.bind_eq_some_iff.1 made
  obtain ⟨items, rfl, rfl⟩ := fades.list? hlist
  have all : ∀ item ∈ items', (read? item).isSome := isSome_mapM_iff.1 (by rw [hread]; rfl)
  show (items.mapM read?).isSome
  rw [isSome_mapM_iff]
  intro item mem
  obtain ⟨item', mem', fades'⟩ := fades.exists_of_mem mem
  exact h item item' fades' (all item' mem')

theorem reflects_strings? : Reflects strings? :=
  agrees_string?.reflects.items

theorem reflects_values? : Reflects values? := by
  intro r r' fades ok
  cases fades with
  | scalar => exact ok
  | nil | cons => rfl
  | object => cases ok

theorem reflects_map? : Reflects map? := by
  intro r r' fades ok
  cases fades with
  | scalar => exact ok
  | nil | cons => cases ok
  | object => rfl

theorem reflects_members? : Reflects members? := by
  intro r r' fades ok
  cases fades with
  | scalar => exact ok
  | nil | cons => cases ok
  | object _ many => exact many ok

theorem Reflects.orNull (h : Reflects read?) : Reflects (orNull read?) := by
  intro r r' fades ok
  unfold Reading.orNull at ok ⊢
  split
  · rfl
  · next here =>
      split at ok
      · cases fades
        exact absurd rfl here
      · rw [Option.isSome_map] at ok ⊢
        exact h r r' fades ok

theorem reflects_parameterDecorators? : Reflects parameterDecorators? :=
  reflects_values?.orNull.items

/-! ## §3. Readers of fields -/

theorem FieldsFade.filter (fade : FieldsFade fields fields') (name : String) :
    FieldsFade (fields.filter (·.1 = name)) (fields'.filter (·.1 = name)) := by
  induction fade with
  | nil => exact .nil
  | @cons field field' rest rest' first _ ih =>
      by_cases here : field'.1 = name
      · rw [List.filter_cons_of_pos (by simp [first.1, here]),
          List.filter_cons_of_pos (by simp [here])]
        exact .cons first ih
      · rw [List.filter_cons_of_neg (by simp [first.1, here]),
          List.filter_cons_of_neg (by simp [here])]
        exact ih

/-- What fades into a field is the field of that name. -/
theorem FieldsFade.field? (fade : FieldsFade fields fields') {name : String}
    {found' : Option Reading} (h : Reading.field? fields' name = some found') :
    ∃ found, Reading.field? fields name = some found ∧ Option.Rel Fades found found' := by
  have filtered := fade.filter name
  unfold Reading.field? at h ⊢
  split at h
  · next none =>
      rw [none, FieldsFade, List.forall₂_nil_right_iff] at filtered
      rw [filtered, ← Option.some.inj h]
      exact ⟨_, rfl, .none⟩
  · next field' only =>
      rw [only, FieldsFade, List.forall₂_cons_right_iff] at filtered
      obtain ⟨field, rest, first, more, same⟩ := filtered
      rw [List.forall₂_nil_right_iff] at more
      rw [same, more, ← Option.some.inj h]
      exact ⟨_, rfl, .some first.2⟩
  · cases h

section

variable (fade : FieldsFade fields fields') {name : String}

include fade

theorem Agrees.required (h : Agrees read?) {a : α}
    (made : required? fields' name read? = some a) : required? fields name read? = some a := by
  obtain ⟨found', hfield, made⟩ := Option.bind_eq_some_iff.1 made
  obtain ⟨r', rfl, made⟩ := Option.bind_eq_some_iff.1 made
  obtain ⟨found, hfield', rel⟩ := fade.field? hfield
  cases rel with
  | @some r _ fades =>
      rw [required?, hfield']
      exact h r r' fades a made

theorem Reflects.required (h : Reflects read?) {a' : α}
    (made : required? fields' name read? = some a') :
    ∃ a, required? fields name read? = some a := by
  obtain ⟨found', hfield, made⟩ := Option.bind_eq_some_iff.1 made
  obtain ⟨r', rfl, made⟩ := Option.bind_eq_some_iff.1 made
  obtain ⟨found, hfield', rel⟩ := fade.field? hfield
  cases rel with
  | @some r _ fades =>
      rw [required?, hfield']
      exact Option.isSome_iff_exists.1 (h r r' fades (Option.isSome_of_eq_some made))

theorem Reflects.optional (h : Reflects read?) {a' : Option α}
    (made : optional? fields' name read? = some a') :
    ∃ a, optional? fields name read? = some a := by
  obtain ⟨found', hfield, made⟩ := Option.bind_eq_some_iff.1 made
  obtain ⟨found, hfield', rel⟩ := fade.field? hfield
  rw [optional?, hfield']
  cases rel with
  | none => exact ⟨none, rfl⟩
  | @some r r' fades =>
      exact Option.isSome_iff_exists.1 (h.orNull r r' fades (Option.isSome_of_eq_some made))

theorem Reflects.defaulted (h : Reflects read?) {default a' : α}
    (made : defaulted? fields' name default read? = some a') :
    ∃ a, defaulted? fields name default read? = some a := by
  obtain ⟨found', hfield, made⟩ := Option.bind_eq_some_iff.1 made
  obtain ⟨found, hfield', rel⟩ := fade.field? hfield
  rw [defaulted?, hfield']
  cases rel with
  | none => exact ⟨default, rfl⟩
  | @some r r' fades =>
      exact Option.isSome_iff_exists.1 (h r r' fades (Option.isSome_of_eq_some made))

/-! ## §4. Members, references and nodes -/

theorem FieldsFade.memberOf? {tag : MemberTag} {member' : Member}
    (made : Reading.memberOf? tag fields' = some member') :
    ∃ member, Reading.memberOf? tag fields = some member := by
  unfold Reading.memberOf? at made ⊢
  obtain ⟨_, hdecorators, made⟩ := Option.bind_eq_some_iff.1 made
  obtain ⟨decorators, hdecorators'⟩ := reflects_values?.optional fade hdecorators
  rw [hdecorators']
  cases tag with
  | property => exact ⟨_, rfl⟩
  | constructor | method =>
      obtain ⟨_, hlists, made⟩ := Option.bind_eq_some_iff.1 made
      obtain ⟨_, hparameters, made⟩ := Option.bind_eq_some_iff.1 made
      obtain ⟨lists, hlists'⟩ := reflects_parameterDecorators?.optional fade hlists
      obtain ⟨parameters, hparameters'⟩ := reflects_values?.optional fade hparameters
      simp only [hlists', hparameters']
      exact ⟨_, rfl⟩

theorem FieldsFade.memberOfFields? {member' : Member}
    (made : Reading.memberOfFields? fields' = some member') :
    ∃ member, Reading.memberOfFields? fields = some member := by
  obtain ⟨tag, htag, made⟩ := Option.bind_eq_some_iff.1 made
  obtain ⟨member, hmember⟩ := fade.memberOf? made
  refine ⟨member, ?_⟩
  rw [Reading.memberOfFields?, agrees_memberTag?.required fade htag]
  exact hmember

theorem FieldsFade.reference? {reference' : Reference}
    (made : Reading.reference? fields' = some reference') :
    ∃ reference, Reading.reference? fields = some reference := by
  have string : ∀ {name a}, required? fields' name string? = some a →
      required? fields name string? = some a :=
    agrees_string?.required fade
  have arguments : ∀ {a'}, optional? fields' "arguments" values? = some a' →
      ∃ a, optional? fields "arguments" values? = some a :=
    reflects_values?.optional fade
  have some_ := Option.isSome_of_eq_some made
  rw [← Option.isSome_iff_exists]
  simp only [Reading.reference?, Option.orElse_eq_orElse, Option.orElse_eq_or, Option.isSome_or,
    Option.isSome_iff_exists, Bool.or_eq_true, Option.bind_eq_bind, Option.bind_eq_some_iff,
    Option.pure_def, Option.some.injEq] at some_ ⊢
  -- the form that fits the faded fields fits the original ones
  rcases some_ with ⟨_, _, hmodule, _, hname, _, hargs, -⟩ | ⟨_, _, hmodule, _, hflag, _, hargs, -⟩
    | ⟨_, _, hmodule, -⟩ | ⟨_, _, hname, _, hargs, -⟩
  · obtain ⟨args, hargs'⟩ := arguments hargs
    exact Or.inl ⟨_, _, string hmodule, _, string hname, args, hargs', rfl⟩
  · obtain ⟨args, hargs'⟩ := arguments hargs
    exact Or.inr (Or.inl ⟨_, _, string hmodule, _, agrees_bool?.required fade hflag, args, hargs',
      rfl⟩)
  · exact Or.inr (Or.inr (Or.inl ⟨_, _, string hmodule, rfl⟩))
  · obtain ⟨args, hargs'⟩ := arguments hargs
    exact Or.inr (Or.inr (Or.inr ⟨_, _, string hname, args, hargs', rfl⟩))

theorem FieldsFade.nodeOf? {tag : NodeTag} {node' : Node}
    (made : Reading.nodeOf? tag fields' = some node') :
    ∃ node, Reading.nodeOf? tag fields = some node := by
  have value : ∀ {name value'}, valueField? fields' name = some value' →
      ∃ value, valueField? fields name = some value :=
    reflects_value.required fade
  have string : ∀ {name a}, required? fields' name string? = some a →
      required? fields name string? = some a :=
    agrees_string?.required fade
  have value? : ∀ {name value'}, optional? fields' name (fun r => some r.value) = some value' →
      ∃ value, optional? fields name (fun r => some r.value) = some value :=
    reflects_value.optional fade
  have values? : ∀ {name values'}, optional? fields' name Reading.values? = some values' →
      ∃ values, optional? fields name Reading.values? = some values :=
    reflects_values?.optional fade
  have map? : ∀ {name entries'}, optional? fields' name Reading.map? = some entries' →
      ∃ entries, optional? fields name Reading.map? = some entries :=
    reflects_map?.optional fade
  have word? : ∀ {name word'}, optional? fields' name Reading.word? = some word' →
      ∃ word, optional? fields name Reading.word? = some word :=
    agrees_word?.reflects.optional fade
  cases tag <;>
    simp only [Reading.nodeOf?, Option.bind_eq_bind, Option.bind_eq_some_iff, Option.pure_def,
      Option.some.injEq, Option.map_eq_some_iff] at made ⊢
  case cls =>
    obtain ⟨_, hbase, _, harity, _, hdecorators, _, hmembers, _, hstatics, -⟩ := made
    obtain ⟨base, hbase'⟩ := value? hbase
    obtain ⟨arity, harity'⟩ := word? harity
    obtain ⟨decorators, hdecorators'⟩ := values? hdecorators
    obtain ⟨members, hmembers'⟩ := reflects_members?.optional fade hmembers
    obtain ⟨statics, hstatics'⟩ := map? hstatics
    exact ⟨_, base, hbase', arity, harity', decorators, hdecorators', members, hmembers', statics,
      hstatics', rfl⟩
  case iface => exact ⟨_, rfl⟩
  case func =>
    obtain ⟨_, hparameters, _, hdefaults, _, hbody, -⟩ := made
    obtain ⟨parameters, hparameters'⟩ := reflects_strings?.defaulted fade hparameters
    obtain ⟨defaults, hdefaults'⟩ := values? hdefaults
    obtain ⟨body, hbody'⟩ := value? hbody
    exact ⟨_, parameters, hparameters', defaults, hdefaults', body, hbody', rfl⟩
  case err =>
    obtain ⟨_, hmessage, _, hline, _, hcharacter, _, hcontext, _, hmodule, -⟩ := made
    obtain ⟨line, hline'⟩ := word? hline
    obtain ⟨character, hcharacter'⟩ := word? hcharacter
    obtain ⟨context, hcontext'⟩ := map? hcontext
    obtain ⟨module, hmodule'⟩ := agrees_string?.reflects.optional fade hmodule
    exact ⟨_, _, string hmessage, line, hline', character, hcharacter', context, hcontext', module,
      hmodule', rfl⟩
  case ref =>
    obtain ⟨_, hreference, -⟩ := made
    obtain ⟨reference, hreference'⟩ := fade.reference? hreference
    exact ⟨_, reference, hreference', rfl⟩
  case binary =>
    obtain ⟨_, hoperator, _, hleft, _, hright, -⟩ := made
    obtain ⟨left, hleft'⟩ := value hleft
    obtain ⟨right, hright'⟩ := value hright
    exact ⟨_, _, string hoperator, left, hleft', right, hright', rfl⟩
  case index =>
    obtain ⟨_, hexpression, _, hindex, -⟩ := made
    obtain ⟨expression, hexpression'⟩ := value hexpression
    obtain ⟨index, hindex'⟩ := value hindex
    exact ⟨_, expression, hexpression', index, hindex', rfl⟩
  case pre =>
    obtain ⟨_, hoperator, _, hoperand, -⟩ := made
    obtain ⟨operand, hoperand'⟩ := value hoperand
    exact ⟨_, _, string hoperator, operand, hoperand', rfl⟩
  case cond =>
    obtain ⟨_, hcondition, _, hthen, _, helse, -⟩ := made
    obtain ⟨condition, hcondition'⟩ := value hcondition
    obtain ⟨thenValue, hthen'⟩ := value hthen
    obtain ⟨elseValue, helse'⟩ := value helse
    exact ⟨_, condition, hcondition', thenValue, hthen', elseValue, helse', rfl⟩
  case call | construct =>
    obtain ⟨_, hcallee, _, harguments, -⟩ := made
    obtain ⟨callee, hcallee'⟩ := value hcallee
    obtain ⟨arguments, harguments'⟩ := values? harguments
    exact ⟨_, callee, hcallee', arguments, harguments', rfl⟩
  case select =>
    obtain ⟨_, hexpression, _, hmember, -⟩ := made
    obtain ⟨expression, hexpression'⟩ := value hexpression
    exact ⟨_, expression, hexpression', _, string hmember, rfl⟩
  case spread =>
    obtain ⟨_, hexpression, -⟩ := made
    obtain ⟨expression, hexpression'⟩ := value hexpression
    exact ⟨_, expression, hexpression', rfl⟩

/-- **A plain object whose fields fade stays a plain object.** -/
theorem FieldsFade.node?_eq_none (none : node? fields = none) : node? fields' = Option.none := by
  rw [Option.eq_none_iff_forall_not_mem]
  intro node' made
  obtain ⟨tag, htag, made⟩ := Option.bind_eq_some_iff.1 made
  obtain ⟨node, hnode⟩ := fade.nodeOf? made
  have found : node? fields = some node := by
    rw [node?, agrees_nodeTag?.required fade htag]
    exact hnode
  cases none.symm.trans found

end

/-! ## §5. Objects -/

theorem Fades.length_eq {items items' : List Reading} (fades : Fades (.list items) (.list items')) :
    items.length = items'.length := by
  induction items generalizing items' with
  | nil =>
      cases fades
      rfl
  | cons first rest ih =>
      cases fades with
      | cons _ there => rw [List.length_cons, List.length_cons, ih there]

theorem Fades.zip {items items' : List Reading} (fades : Fades (.list items) (.list items'))
    (names : List String) : FieldsFade (names.zip items) (names.zip items') := by
  induction names generalizing items items' with
  | nil => exact .nil
  | cons name names ih =>
      cases fades with
      | nil => exact .nil
      | cons first rest => exact .cons ⟨rfl, first⟩ (ih rest)

theorem reflects_member? : Reflects member? := by
  intro r r' fades ok
  cases fades with
  | scalar | nil => cases ok
  -- written as a list, the fields stand in order behind the tag
  | @cons head head' items items' first rest =>
      obtain ⟨member', made⟩ := Option.isSome_iff_exists.1 ok
      obtain ⟨tag, htag, made⟩ := Option.bind_eq_some_iff.1 made
      replace made : (if (memberFields tag).length < items'.length then none
        else memberOf? tag ((memberFields tag).zip items')) = some member' := made
      split at made
      · cases made
      · next short =>
          obtain ⟨member, hmember⟩ := (rest.zip (memberFields tag)).memberOf? made
          have short' : ¬ (memberFields tag).length < items.length := rest.length_eq ▸ short
          have found : memberOfItems? (head :: items) = some member := by
            rw [memberOfItems?, agrees_memberTag? head head' first tag htag]
            show (if (memberFields tag).length < items.length then none
              else memberOf? tag ((memberFields tag).zip items)) = some member
            rw [if_neg short', hmember]
          exact Option.isSome_of_eq_some found
  | object single _ => exact single ok

/-- Each field of an object of members holds a list of them. -/
theorem isSome_members?_iff {value : Value} {member : Option Member} :
    (members? (.object fields value member)).isSome
      ↔ ∀ field ∈ fields, (field.2.list?.bind (·.mapM member?)).isSome := by
  rw [members?_object, Option.isSome_map, isSome_mapM_iff]
  refine forall₂_congr fun field _ => ?_
  obtain ⟨name, r⟩ := field
  cases r with
  | scalar | object => rfl
  | list items =>
      show ((items.mapM member?).bind _).isSome = true ↔ (items.mapM member?).isSome = true
      cases items.mapM member? <;> rfl

theorem FieldsFade.exists_of_mem (fade : FieldsFade fields fields') {field : String × Reading}
    (mem : field ∈ fields) : ∃ field' ∈ fields', field.2.Fades field'.2 := by
  induction fade with
  | nil => cases mem
  | @cons _ field' _ _ first _ ih =>
      rcases List.mem_cons.1 mem with rfl | mem
      · exact ⟨field', List.mem_cons_self, first.2⟩
      · obtain ⟨other, hother, fades⟩ := ih mem
        exact ⟨other, List.mem_cons_of_mem _ hother, fades⟩

/-- **Objects fade where their fields do.** -/
theorem FieldsFade.ofFields (fade : FieldsFade fields fields') :
    (Reading.ofFields fields).Fades (Reading.ofFields fields') := by
  refine .object ?_ ?_
  · intro ok
    obtain ⟨member', made⟩ := Option.isSome_iff_exists.1 ok
    exact Option.isSome_iff_exists.2 (fade.memberOfFields? made)
  · rw [isSome_members?_iff, isSome_members?_iff]
    intro ok field mem
    obtain ⟨field', mem', fades⟩ := fade.exists_of_mem mem
    exact reflects_member?.items field.2 field'.2 fades (ok field' mem')

/-- **Any object may fade into one with the tag of a node.** -/
theorem Fades.tagged {value : Value} {member : Option Member} {tag : NodeTag}
    (word : field? fields' tagKey = some (some (.scalar (.str tag.name)))) :
    (Reading.object fields value member).Fades (Reading.ofFields fields') := by
  refine .object ?_ ?_
  · -- no tag of a node is one of a member
    have none : memberOfFields? fields' = none := by
      rw [memberOfFields?, required?, word]
      cases tag <;> rfl
    intro ok
    rw [none] at ok
    cases ok
  · -- the tag is no list of members
    rw [isSome_members?_iff]
    exact fun ok => absurd (ok _ (mem_of_field? word)) Bool.false_ne_true

end FlatBundle.Reading
