/-
  FlatBundle.Proofs.Value.Written
  ───────────────────────────────
  **WHAT IS WRITTEN IS READ BACK.**

  Most values are read back as they were written.  The exceptions are few: a base class or a
  function body that is `null`, as that is how an absent one reads; a name that repeats; a
  handle, which has no written form; and a plain object that looks like a node.  In a value
  that is `Stable` at every depth there is nothing of this, and it is read back from its
  tree (`Value.Everywhere.rereads`).

  A node is written field by field, and each field is found again under its name
  (`Encode.field?_ofPairs`); so all that is left for a kind of node is to name its fields.
-/
import FlatBundle.Metadata.Encode
import FlatBundle.Proofs.Value.Offered

namespace FlatBundle

open Reading (ofJson ofItems ofPairs field? optional? required? orNull)

variable {α : Type} {read? : Reading → Option α} {fields : List (String × Reading)}
variable {name : String}

/-! ## §1. Fields -/

namespace Encode

/-- Fields in order, where those with nothing to write are left out. -/
def fieldsOf (template : List (String × Option Json)) : List (String × Json) :=
  template.flatMap fun field => optional field.1 field.2

theorem ofPairs_append (first second : List (String × Json)) :
    ofPairs (first ++ second) = ofPairs first ++ ofPairs second := by
  induction first with
  | nil => rfl
  | cons field rest ih => exact congrArg ((field.1, ofJson field.2) :: ·) ih

theorem filter_ofPairs_optional (other : String) (json : Option Json) :
    (ofPairs (optional other json)).filter (·.1 = name)
      = if other = name then (json.map fun json => (name, ofJson json)).toList else [] := by
  cases json with
  | none => simp [optional, ofPairs]
  | some json =>
      by_cases same : other = name <;> simp [optional, ofPairs, same]

/-- **A field that is written is found under its name.** -/
theorem field?_ofPairs {template : List (String × Option Json)}
    (nodup : (template.map Prod.fst).Nodup) {json : Option Json} (mem : (name, json) ∈ template) :
    field? (ofPairs (Encode.fieldsOf template)) name = some (json.map ofJson) := by
  have absent : ∀ rest : List (String × Option Json), name ∉ rest.map Prod.fst →
      (ofPairs (Encode.fieldsOf rest)).filter (·.1 = name) = [] := by
    intro rest out
    induction rest with
    | nil => rfl
    | cons field rest ih =>
        rw [List.map_cons, List.mem_cons, not_or] at out
        rw [Encode.fieldsOf, List.flatMap_cons, ofPairs_append, List.filter_append,
          filter_ofPairs_optional, if_neg (Ne.symm out.1), List.nil_append]
        exact ih out.2
  have found : (ofPairs (Encode.fieldsOf template)).filter (·.1 = name)
      = (json.map fun json => (name, ofJson json)).toList := by
    induction template with
    | nil => cases mem
    | cons field rest ih =>
        rw [List.map_cons, List.nodup_cons] at nodup
        rw [Encode.fieldsOf, List.flatMap_cons, ofPairs_append, List.filter_append,
          filter_ofPairs_optional]
        rcases List.mem_cons.1 mem with rfl | mem
        · rw [if_pos rfl, ← Encode.fieldsOf, absent rest nodup.1, List.append_nil]
        · have other : field.1 ≠ name := by
            rintro rfl
            exact nodup.1 (List.mem_map.2 ⟨_, mem, rfl⟩)
          rw [if_neg other, List.nil_append]
          exact ih nodup.2 mem
  rw [field?, found]
  cases json <;> rfl

/-- The fields of a template are found where it is written. -/
theorem forall_field?_ofPairs (template : List (String × Option Json))
    (nodup : (template.map Prod.fst).Nodup) : ∀ field ∈ template,
      field? (ofPairs (Encode.fieldsOf template)) field.1 = some (field.2.map ofJson) :=
  fun _ mem => field?_ofPairs nodup mem

end Encode

namespace Reading

theorem values_eq_map (items : List Reading) : values items = items.map value := by
  induction items with
  | nil => rfl
  | cons item rest ih => exact congrArg (item.value :: ·) ih

/-- What is written for something that may be absent, or nothing, is read as it. -/
def Restores (read? : Reading → Option α) (written : Option Json) (a : Option α) : Prop :=
  match written with
  | none => a = none
  | some json => orNull read? (ofJson json) = some a

theorem Restores.optional? {written : Option Json} {a : Option α}
    (h : Restores read? written a) (found : field? fields name = some (written.map ofJson)) :
    optional? fields name read? = some a := by
  rw [Reading.optional?, found]
  cases written with
  | none =>
      obtain rfl : a = none := h
      rfl
  | some json => exact h

theorem required?_of_field? {json : Json} {a : α}
    (found : field? fields name = some ((some json).map ofJson))
    (h : read? (ofJson json) = some a) : required? fields name read? = some a := by
  rw [required?, found]
  exact h

theorem defaulted?_of_field? {json : Json} {a default : α}
    (found : field? fields name = some ((some json).map ofJson))
    (h : read? (ofJson json) = some a) : defaulted? fields name default read? = some a := by
  rw [defaulted?, found]
  exact h

theorem valueField?_of_field? {json : Json} {value : Value}
    (found : field? fields name = some ((some json).map ofJson)) (h : Value.ofJson json = value) :
    valueField? fields name = some value :=
  required?_of_field? found (congrArg some h)

theorem required?_of_absent (found : field? fields name = some ((none : Option Json).map ofJson)) :
    required? fields name read? = none := by
  rw [required?, found]
  rfl

/-- What is written is something, and not `null`. -/
theorem Restores.of_some {json : Json} {a : α} (h : read? (ofJson json) = some a)
    (ne : json ≠ .null) : Restores read? (some json) (some a) := by
  show orNull read? (ofJson json) = some (some a)
  unfold orNull
  split
  · next null =>
      cases json with
      | null => exact absurd rfl ne
      | bool | num | str | arr => cases null
      | obj => cases null
  · rw [h]
    rfl

theorem word?_word (n : UInt32) : word? (ofJson (Encode.word n)) = some n := by
  have bound : n.toNat < 2 ^ 32 := n.toNat_lt
  have small : (n.toNat : Int) < Int.pow 2 32 := by
    show (n.toNat : Int) < ((2 ^ 32 : Nat) : Int)
    omega
  show (if 0 ≤ (n.toNat : Int) ∧ (n.toNat : Int) < Int.pow 2 32
    then some (UInt32.ofNat (n.toNat : Int).toNat) else none) = some n
  rw [if_pos ⟨Int.natCast_nonneg _, small⟩, Int.toNat_natCast, UInt32.ofNat_toNat]

theorem restores_word? (n : Option UInt32) : Restores word? (n.map Encode.word) n := by
  cases n with
  | none => rfl
  | some n => exact Restores.of_some (word?_word n) nofun

theorem restores_string? (s : Option String) : Restores string? (s.map Json.str) s := by
  cases s with
  | none => rfl
  | some s => rfl

theorem string?_str (s : String) : string? (ofJson (.str s)) = some s := rfl

theorem bool?_bool (b : Bool) : bool? (ofJson (.bool b)) = some b := rfl

/-- Things that are written in a list are read back one by one. -/
theorem mapM_ofItems {write : α → Json} (h : ∀ a, read? (ofJson (write a)) = some a)
    (as : List α) : (ofItems (as.map write)).mapM read? = some as := by
  induction as with
  | nil => rfl
  | cons a rest ih =>
      rw [List.map_cons, ofItems, List.mapM_cons, h a, ih]
      rfl

/-- A list that may be absent. -/
theorem restores_items {write : α → Json} (h : ∀ a, read? (ofJson (write a)) = some a)
    (as : Option (List α)) :
    Restores (fun r => r.list?.bind (·.mapM read?)) (as.map fun as => .arr (as.map write)) as := by
  cases as with
  | none => rfl
  | some as => exact Restores.of_some (mapM_ofItems h as) nofun

theorem strings?_strings (xs : List String) : strings? (ofJson (Encode.strings xs)) = some xs :=
  mapM_ofItems string?_str xs

end Reading

/-! ## §2. Lists and maps -/

/-- The value has a written form, and it is read back from that. -/
def Value.Rereads (value : Value) : Prop :=
  ∃ json, value.encode? = some json ∧ Value.ofJson json = value

/-- The member has a written form, and it is read back from that. -/
def Member.Rereads (member : Member) : Prop :=
  ∃ json, member.encode? = some json ∧ (ofJson json).member? = some member

namespace Encode

theorem rereads_list {values : List Value} (h : ∀ value ∈ values, value.Rereads) :
    ∃ items, Encode.list? values = some items ∧ (ofItems items).map Reading.value = values := by
  induction values with
  | nil => exact ⟨[], rfl, rfl⟩
  | cons value rest ih =>
      obtain ⟨json, written, same⟩ := h value List.mem_cons_self
      obtain ⟨items, written', same'⟩ :=
        ih fun other hother => h other (List.mem_cons_of_mem _ hother)
      refine ⟨json :: items, ?_, congrArg₂ List.cons same same'⟩
      rw [Encode.list?, written, written']
      rfl

theorem restores_values? {values : Option (List Value)}
    (h : ∀ value ∈ values.getD [], value.Rereads) :
    ∃ json, Encode.values? values = some json ∧ Reading.Restores Reading.values? json values := by
  cases values with
  | none => exact ⟨none, rfl, rfl⟩
  | some values =>
      replace h : ∀ value ∈ values, value.Rereads := h
      obtain ⟨items, written, same⟩ := rereads_list h
      refine ⟨some (.arr items), ?_, Reading.Restores.of_some (congrArg some same) nofun⟩
      rw [Encode.values?, written]
      rfl

theorem restores_value? {value : Option Value} (ne : value ≠ some .null)
    (h : ∀ inner ∈ value.toList, inner.Rereads) :
    ∃ json, Encode.value? value = some json
      ∧ Reading.Restores (fun r => some r.value) json value := by
  cases value with
  | none => exact ⟨none, rfl, rfl⟩
  | some value =>
      obtain ⟨json, written, same⟩ := h value List.mem_cons_self
      refine ⟨some json, ?_, Reading.Restores.of_some (congrArg some same) ?_⟩
      · rw [Encode.value?, written]
        rfl
      · rintro rfl
        exact ne (congrArg some same.symm)

theorem rereads_entries {entries : List (String × Value)}
    (h : ∀ value ∈ entries.map Prod.snd, value.Rereads) :
    ∃ fields, Encode.entries? entries = some fields
      ∧ (ofPairs fields).map (fun field => (field.1, field.2.value)) = entries := by
  induction entries with
  | nil => exact ⟨[], rfl, rfl⟩
  | cons entry rest ih =>
      obtain ⟨json, written, same⟩ := h entry.2 List.mem_cons_self
      obtain ⟨fields, written', same'⟩ :=
        ih fun other hother => h other (List.mem_cons_of_mem _ hother)
      refine ⟨(entry.1, json) :: fields, ?_, congrArg₂ List.cons (Prod.ext rfl same) same'⟩
      rw [Encode.entries?, written, written']
      rfl

theorem restores_map? {entries : Option (List (String × Value))}
    (nodup : (Pairs.keys (entries.getD [])).Nodup)
    (h : ∀ value ∈ (entries.getD []).map Prod.snd, value.Rereads) :
    ∃ json, Encode.map? entries = some json ∧ Reading.Restores Reading.map? json entries := by
  cases entries with
  | none => exact ⟨none, rfl, rfl⟩
  | some entries =>
      replace h : ∀ value ∈ entries.map Prod.snd, value.Rereads := h
      obtain ⟨fields, written, same⟩ := rereads_entries h
      refine ⟨some (.obj fields), ?_, Reading.Restores.of_some ?_ nofun⟩
      · rw [Encode.map?, written]
        rfl
      · show some (Pairs.merge ((ofPairs fields).map fun field => (field.1, field.2.value)))
          = some entries
        rw [same, Pairs.merge_of_nodup (show (Pairs.keys entries).Nodup from nodup)]

/-- The decorators of each parameter; where there are none, `null` is written. -/
theorem rereads_parameterList {lists : List (Option (List Value))}
    (h : ∀ value ∈ lists.flatMap (·.getD []), value.Rereads) :
    ∃ items, Encode.parameterList? lists = some items
      ∧ (ofItems items).mapM (Reading.orNull Reading.values?) = some lists := by
  induction lists with
  | nil => exact ⟨[], rfl, rfl⟩
  | cons decorators rest ih =>
      rw [List.flatMap_cons, List.forall_mem_append] at h
      obtain ⟨json, written, same⟩ := restores_values? h.1
      obtain ⟨items, written', same'⟩ := ih h.2
      refine ⟨json.getD .null :: items, ?_, ?_⟩
      · rw [Encode.parameterList?, written, written']
        rfl
      · have first : orNull Reading.values? (ofJson (json.getD .null)) = some decorators := by
          cases json with
          | none =>
              obtain rfl : decorators = none := same
              rfl
          | some json => exact same
        rw [ofItems, List.mapM_cons, first, same']
        rfl

theorem restores_parameterDecorators? {lists : Option (List (Option (List Value)))}
    (h : ∀ value ∈ (lists.getD []).flatMap (·.getD []), value.Rereads) :
    ∃ json, Encode.parameterDecorators? lists = some json
      ∧ Reading.Restores Reading.parameterDecorators? json lists := by
  cases lists with
  | none => exact ⟨none, rfl, rfl⟩
  | some lists =>
      replace h : ∀ value ∈ lists.flatMap (·.getD []), value.Rereads := h
      obtain ⟨items, written, same⟩ := rereads_parameterList h
      refine ⟨some (.arr items), ?_, Reading.Restores.of_some same nofun⟩
      rw [Encode.parameterDecorators?, written]
      rfl

end Encode

/-! ## §3. Members -/

theorem memberTag?_name (tag : MemberTag) : (ofJson (.str tag.name)).memberTag? = some tag := by
  cases tag <;> rfl

/-- A member is read back if its fields are. -/
theorem Member.rereads_of_template {member : Member} (template : List (String × Option Json))
    (written : member.encode?
      = some (.obj (Encode.fieldsOf ((tagKey, some (.str member.tag.name)) :: template))))
    (nodup : (tagKey :: template.map Prod.fst).Nodup)
    (read : ∀ fields, (∀ field ∈ template, field? fields field.1 = some (field.2.map ofJson)) →
      Reading.memberOf? member.tag fields = some member) : member.Rereads := by
  have found :=
    Encode.forall_field?_ofPairs ((tagKey, some (.str member.tag.name)) :: template) nodup
  rw [List.forall_mem_cons] at found
  refine ⟨_, written, ?_⟩
  show Reading.memberOfFields? _ = some member
  rw [Reading.memberOfFields?, Reading.required?_of_field? found.1 (memberTag?_name member.tag)]
  exact read _ found.2

/-- **A member is read back if all that stands inside of it is.** -/
theorem Member.rereads {member : Member} (h : ∀ child ∈ member.children, child.Rereads) :
    member.Rereads := by
  cases member with
  | property decorators =>
      obtain ⟨json, written, restores⟩ := Encode.restores_values? h
      refine Member.rereads_of_template [("decorators", json)] ?_ (by simp [tagKey]) ?_
      · simp [Member.encode?, Member.tag, written, Encode.tagged, Encode.fieldsOf, Encode.optional]
      · intro fields found
        simp only [List.forall_mem_cons] at found
        simp only [Member.tag, Reading.memberOf?, restores.optional? found.1]
        rfl
  | constructor decorators parameterDecorators parameters
  | method decorators parameterDecorators parameters =>
      simp only [Member.children, List.forall_mem_append] at h
      obtain ⟨first, written, restores⟩ := Encode.restores_values? h.1
      obtain ⟨second, written', restores'⟩ := Encode.restores_parameterDecorators? h.2.1
      obtain ⟨third, written'', restores''⟩ := Encode.restores_values? h.2.2
      refine Member.rereads_of_template [("decorators", first), ("parameterDecorators", second),
        ("parameters", third)] ?_ (by simp [tagKey]) ?_
      · simp [Member.encode?, Member.tag, written, written', written'', Encode.tagged,
          Encode.fieldsOf, Encode.optional]
      · intro fields found
        simp only [List.forall_mem_cons] at found
        obtain ⟨here, here', here'', -⟩ := found
        simp only [Member.tag, Reading.memberOf?, restores.optional? here,
          restores'.optional? here', restores''.optional? here'']
        rfl

namespace Encode

theorem rereads_memberList {members : List Member}
    (h : ∀ child ∈ members.flatMap Member.children, child.Rereads) :
    ∃ items, Encode.memberList? members = some items
      ∧ (ofItems items).mapM Reading.member? = some members := by
  induction members with
  | nil => exact ⟨[], rfl, rfl⟩
  | cons member rest ih =>
      rw [List.flatMap_cons, List.forall_mem_append] at h
      obtain ⟨json, written, same⟩ := Member.rereads h.1
      obtain ⟨items, written', same'⟩ := ih h.2
      refine ⟨json :: items, ?_, ?_⟩
      · rw [Encode.memberList?, written, written']
        rfl
      · rw [ofItems, List.mapM_cons, same, same']
        rfl

theorem rereads_memberEntries {members : List (String × List Member)}
    (h : ∀ child ∈ members.flatMap (fun entry => entry.2.flatMap Member.children),
      child.Rereads) :
    ∃ fields, Encode.memberEntries? members = some fields
      ∧ (ofPairs fields).mapM Reading.overloads? = some members := by
  induction members with
  | nil => exact ⟨[], rfl, rfl⟩
  | cons entry rest ih =>
      rw [List.flatMap_cons, List.forall_mem_append] at h
      obtain ⟨items, written, same⟩ := rereads_memberList h.1
      obtain ⟨fields, written', same'⟩ := ih h.2
      refine ⟨(entry.1, .arr items) :: fields, ?_, ?_⟩
      · rw [Encode.memberEntries?, written, written']
        rfl
      · have first : Reading.overloads? (entry.1, ofJson (.arr items)) = some entry := by
          show ((ofItems items).mapM Reading.member?).bind _ = _
          rw [same]
          rfl
        rw [ofPairs, List.mapM_cons, first, same']
        rfl

theorem restores_members? {members : Option (List (String × List Member))}
    (nodup : (Pairs.keys (members.getD [])).Nodup)
    (h : ∀ child ∈ (members.getD []).flatMap (fun entry => entry.2.flatMap Member.children),
      child.Rereads) :
    ∃ json, Encode.members? members = some json
      ∧ Reading.Restores Reading.members? json members := by
  cases members with
  | none => exact ⟨none, rfl, rfl⟩
  | some members =>
      replace h : ∀ child ∈ members.flatMap (fun entry => entry.2.flatMap Member.children),
        child.Rereads := h
      obtain ⟨fields, written, same⟩ := rereads_memberEntries h
      refine ⟨some (.obj fields), ?_, Reading.Restores.of_some ?_ nofun⟩
      · rw [Encode.members?, written]
        rfl
      · show Reading.members? (.object (ofPairs fields) _ _) = some members
        rw [Reading.members?_object, same]
        exact congrArg some (Pairs.merge_of_nodup nodup)

end Encode

/-! ## §4. Nodes -/

/-- A node that has a written form from which it may be read: no `null` stands where an
absent value would read as `null`, no name repeats, and it is no handle. -/
def Node.Stable : Node → Prop
  | .cls base _ _ members statics =>
      base ≠ some .null ∧ (Pairs.keys (members.getD [])).Nodup
        ∧ (Pairs.keys (statics.getD [])).Nodup
  | .func _ _ body => body ≠ some .null
  | .err _ _ _ context _ => (Pairs.keys (context.getD [])).Nodup
  | .ref (.bundled _) => False
  | _ => True

/-- The node is written as an object with the given fields, and read back from them. -/
structure Node.WrittenAs (node : Node) (fields : List (String × Json)) : Prop where
  encode : node.encode? = some (.obj fields)
  tag : field? (ofPairs fields) tagKey = some (some (.scalar (.str node.tag.name)))
  read : Reading.nodeOf? node.tag (ofPairs fields) = some node

theorem nodeTag?_name (tag : NodeTag) : (ofJson (.str tag.name)).nodeTag? = some tag := by
  cases tag <;> rfl

theorem Node.WrittenAs.node? {node : Node} {fields : List (String × Json)}
    (h : node.WrittenAs fields) : Reading.node? (ofPairs fields) = some node := by
  rw [Reading.node?, required?, h.tag]
  show (Reading.nodeTag? (ofJson (.str node.tag.name))).bind _ = _
  rw [nodeTag?_name]
  exact h.read

theorem Node.exists_writtenAs_of_template {node : Node} (template : List (String × Option Json))
    (written : node.encode?
      = some (.obj (Encode.fieldsOf ((tagKey, some (.str node.tag.name)) :: template))))
    (nodup : (tagKey :: template.map Prod.fst).Nodup)
    (read : ∀ fields, (∀ field ∈ template, field? fields field.1 = some (field.2.map ofJson)) →
      Reading.nodeOf? node.tag fields = some node) : ∃ fields, node.WrittenAs fields := by
  have found :=
    Encode.forall_field?_ofPairs ((tagKey, some (.str node.tag.name)) :: template) nodup
  rw [List.forall_mem_cons] at found
  exact ⟨_, written, found.1, read _ found.2⟩

/-- A reference shows its form by the fields that it has. -/
theorem Reference.exists_writtenAs {reference : Reference} (stable : (Node.ref reference).Stable)
    (h : ∀ child ∈ reference.parts, child.Rereads) :
    ∃ fields, (Node.ref reference).WrittenAs fields := by
  cases reference with
  | bundled id => exact stable.elim
  | module module =>
      refine Node.exists_writtenAs_of_template
        [("module", some (.str module)), ("name", none), ("default", none)] ?_ (by simp [tagKey]) ?_
      · simp [Node.encode?, Reference.encode?, Node.tag, Encode.tagged, Encode.fieldsOf,
          Encode.optional]
      · intro fields found
        simp only [List.forall_mem_cons] at found
        obtain ⟨hmodule, hname, hflag, -⟩ := found
        have module? := Reading.required?_of_field? hmodule (Reading.string?_str module)
        simp only [Node.tag, Reading.nodeOf?, Reading.reference?, module?,
          Reading.required?_of_absent hname, Reading.required?_of_absent hflag]
        rfl
  | imported module name arguments =>
      obtain ⟨json, written, restores⟩ := Encode.restores_values? h
      refine Node.exists_writtenAs_of_template
        [("module", some (.str module)), ("name", some (.str name)), ("arguments", json)] ?_
        (by simp [tagKey]) ?_
      · simp [Node.encode?, Reference.encode?, written, Node.tag, Encode.tagged, Encode.fieldsOf,
          Encode.optional]
      · intro fields found
        simp only [List.forall_mem_cons] at found
        obtain ⟨hmodule, hname, harguments, -⟩ := found
        have module? := Reading.required?_of_field? hmodule (Reading.string?_str module)
        have name? := Reading.required?_of_field? hname (Reading.string?_str name)
        simp only [Node.tag, Reading.nodeOf?, Reading.reference?, module?, name?,
          restores.optional? harguments]
        rfl
  | default module flag arguments =>
      obtain ⟨json, written, restores⟩ := Encode.restores_values? h
      refine Node.exists_writtenAs_of_template
        [("module", some (.str module)), ("name", none), ("default", some (.bool flag)),
          ("arguments", json)] ?_ (by simp [tagKey]) ?_
      · simp [Node.encode?, Reference.encode?, written, Node.tag, Encode.tagged, Encode.fieldsOf,
          Encode.optional]
      · intro fields found
        simp only [List.forall_mem_cons] at found
        obtain ⟨hmodule, hname, hflag, harguments, -⟩ := found
        have module? := Reading.required?_of_field? hmodule (Reading.string?_str module)
        have flag? := Reading.required?_of_field? hflag (Reading.bool?_bool flag)
        simp only [Node.tag, Reading.nodeOf?, Reading.reference?, module?, flag?,
          Reading.required?_of_absent hname, restores.optional? harguments]
        rfl
  | global name arguments =>
      obtain ⟨json, written, restores⟩ := Encode.restores_values? h
      refine Node.exists_writtenAs_of_template
        [("module", none), ("name", some (.str name)), ("arguments", json)] ?_
        (by simp [tagKey]) ?_
      · simp [Node.encode?, Reference.encode?, written, Node.tag, Encode.tagged, Encode.fieldsOf,
          Encode.optional]
      · intro fields found
        simp only [List.forall_mem_cons] at found
        obtain ⟨hmodule, hname, harguments, -⟩ := found
        have name? := Reading.required?_of_field? hname (Reading.string?_str name)
        simp only [Node.tag, Reading.nodeOf?, Reading.reference?, name?,
          Reading.required?_of_absent hmodule, restores.optional? harguments]
        rfl

/-- **A node is read back if all that stands inside of it is.** -/
theorem Node.exists_writtenAs {node : Node} (stable : node.Stable)
    (h : ∀ child ∈ node.children, child.Rereads) : ∃ fields, node.WrittenAs fields := by
  cases node with
  | ref reference => exact Reference.exists_writtenAs stable h
  | iface =>
      refine Node.exists_writtenAs_of_template [] ?_ (by simp) ?_
      · simp [Node.encode?, Node.tag, Encode.tagged, Encode.fieldsOf, Encode.optional]
      · exact fun _ _ => rfl
  | cls base arity decorators members statics =>
      simp only [Node.children, List.forall_mem_append] at h
      obtain ⟨hmembers, hstatics, hbase, hdecorators⟩ := h
      obtain ⟨ne, nodup, nodup'⟩ := stable
      obtain ⟨first, written₁, restores₁⟩ := Encode.restores_value? ne hbase
      obtain ⟨third, written₃, restores₃⟩ := Encode.restores_values? hdecorators
      obtain ⟨fourth, written₄, restores₄⟩ := Encode.restores_members? nodup hmembers
      obtain ⟨fifth, written₅, restores₅⟩ := Encode.restores_map? nodup' hstatics
      refine Node.exists_writtenAs_of_template
        [("extends", first), ("arity", arity.map Encode.word), ("decorators", third),
          ("members", fourth), ("statics", fifth)] ?_ (by simp [tagKey]) ?_
      · simp [Node.encode?, written₁, written₃, written₄, written₅, Node.tag, Encode.tagged,
          Encode.fieldsOf, Encode.optional]
      · intro fields found
        simp only [List.forall_mem_cons] at found
        obtain ⟨found₁, found₂, found₃, found₄, found₅, -⟩ := found
        simp only [Node.tag, Reading.nodeOf?, restores₁.optional? found₁,
          (Reading.restores_word? arity).optional? found₂, restores₃.optional? found₃,
          restores₄.optional? found₄, restores₅.optional? found₅]
        rfl
  | func parameters defaults body =>
      simp only [Node.children, List.forall_mem_append] at h
      obtain ⟨second, written₂, restores₂⟩ := Encode.restores_values? h.1
      obtain ⟨third, written₃, restores₃⟩ := Encode.restores_value? stable h.2
      refine Node.exists_writtenAs_of_template
        [("parameters", some (Encode.strings parameters)), ("defaults", second), ("value", third)]
        ?_ (by simp [tagKey]) ?_
      · simp [Node.encode?, written₂, written₃, Node.tag, Encode.tagged, Encode.fieldsOf,
          Encode.optional]
      · intro fields found
        simp only [List.forall_mem_cons] at found
        obtain ⟨found₁, found₂, found₃, -⟩ := found
        simp only [Node.tag, Reading.nodeOf?,
          Reading.defaulted?_of_field? found₁ (Reading.strings?_strings parameters),
          restores₂.optional? found₂, restores₃.optional? found₃]
        rfl
  | err message line character context module =>
      obtain ⟨fourth, written₄, restores₄⟩ := Encode.restores_map? stable h
      refine Node.exists_writtenAs_of_template
        [("message", some (.str message)), ("line", line.map Encode.word),
          ("character", character.map Encode.word), ("context", fourth),
          ("module", module.map Json.str)] ?_ (by simp [tagKey]) ?_
      · simp [Node.encode?, written₄, Node.tag, Encode.tagged, Encode.fieldsOf, Encode.optional]
      · intro fields found
        simp only [List.forall_mem_cons] at found
        obtain ⟨found₁, found₂, found₃, found₄, found₅, -⟩ := found
        simp only [Node.tag, Reading.nodeOf?,
          Reading.required?_of_field? found₁ (Reading.string?_str message),
          (Reading.restores_word? line).optional? found₂,
          (Reading.restores_word? character).optional? found₃, restores₄.optional? found₄,
          (Reading.restores_string? module).optional? found₅]
        rfl
  | binary operator left right =>
      simp only [Node.children, List.forall_mem_cons] at h
      obtain ⟨⟨second, written₂, same₂⟩, ⟨third, written₃, same₃⟩, -⟩ := h
      refine Node.exists_writtenAs_of_template
        [("operator", some (.str operator)), ("left", some second), ("right", some third)] ?_
        (by simp [tagKey]) ?_
      · simp [Node.encode?, written₂, written₃, Node.tag, Encode.tagged, Encode.fieldsOf,
          Encode.optional]
      · intro fields found
        simp only [List.forall_mem_cons] at found
        obtain ⟨found₁, found₂, found₃, -⟩ := found
        simp only [Node.tag, Reading.nodeOf?,
          Reading.required?_of_field? found₁ (Reading.string?_str operator),
          Reading.valueField?_of_field? found₂ same₂, Reading.valueField?_of_field? found₃ same₃]
        rfl
  | index expression place =>
      simp only [Node.children, List.forall_mem_cons] at h
      obtain ⟨⟨first, written₁, same₁⟩, ⟨second, written₂, same₂⟩, -⟩ := h
      refine Node.exists_writtenAs_of_template
        [("expression", some first), ("index", some second)] ?_ (by simp [tagKey]) ?_
      · simp [Node.encode?, written₁, written₂, Node.tag, Encode.tagged, Encode.fieldsOf,
          Encode.optional]
      · intro fields found
        simp only [List.forall_mem_cons] at found
        obtain ⟨found₁, found₂, -⟩ := found
        simp only [Node.tag, Reading.nodeOf?, Reading.valueField?_of_field? found₁ same₁,
          Reading.valueField?_of_field? found₂ same₂]
        rfl
  | pre operator operand =>
      simp only [Node.children, List.forall_mem_cons] at h
      obtain ⟨⟨second, written₂, same₂⟩, -⟩ := h
      refine Node.exists_writtenAs_of_template
        [("operator", some (.str operator)), ("operand", some second)] ?_ (by simp [tagKey]) ?_
      · simp [Node.encode?, written₂, Node.tag, Encode.tagged, Encode.fieldsOf, Encode.optional]
      · intro fields found
        simp only [List.forall_mem_cons] at found
        obtain ⟨found₁, found₂, -⟩ := found
        simp only [Node.tag, Reading.nodeOf?,
          Reading.required?_of_field? found₁ (Reading.string?_str operator),
          Reading.valueField?_of_field? found₂ same₂]
        rfl
  | cond condition thenValue elseValue =>
      simp only [Node.children, List.forall_mem_cons] at h
      obtain ⟨⟨first, written₁, same₁⟩, ⟨second, written₂, same₂⟩, ⟨third, written₃, same₃⟩, -⟩ := h
      refine Node.exists_writtenAs_of_template
        [("condition", some first), ("thenExpression", some second),
          ("elseExpression", some third)] ?_ (by simp [tagKey]) ?_
      · simp [Node.encode?, written₁, written₂, written₃, Node.tag, Encode.tagged,
          Encode.fieldsOf, Encode.optional]
      · intro fields found
        simp only [List.forall_mem_cons] at found
        obtain ⟨found₁, found₂, found₃, -⟩ := found
        simp only [Node.tag, Reading.nodeOf?, Reading.valueField?_of_field? found₁ same₁,
          Reading.valueField?_of_field? found₂ same₂, Reading.valueField?_of_field? found₃ same₃]
        rfl
  | call callee arguments | construct callee arguments =>
      simp only [Node.children, List.forall_mem_cons] at h
      obtain ⟨⟨first, written₁, same₁⟩, harguments⟩ := h
      obtain ⟨second, written₂, restores₂⟩ := Encode.restores_values? harguments
      refine Node.exists_writtenAs_of_template
        [("expression", some first), ("arguments", second)] ?_ (by simp [tagKey]) ?_
      · simp [Node.encode?, written₁, written₂, Node.tag, Encode.tagged, Encode.fieldsOf,
          Encode.optional]
      · intro fields found
        simp only [List.forall_mem_cons] at found
        obtain ⟨found₁, found₂, -⟩ := found
        simp only [Node.tag, Reading.nodeOf?, Reading.valueField?_of_field? found₁ same₁,
          restores₂.optional? found₂]
        rfl
  | select expression member =>
      simp only [Node.children, List.forall_mem_cons] at h
      obtain ⟨⟨first, written₁, same₁⟩, -⟩ := h
      refine Node.exists_writtenAs_of_template
        [("expression", some first), ("member", some (.str member))] ?_ (by simp [tagKey]) ?_
      · simp [Node.encode?, written₁, Node.tag, Encode.tagged, Encode.fieldsOf, Encode.optional]
      · intro fields found
        simp only [List.forall_mem_cons] at found
        obtain ⟨found₁, found₂, -⟩ := found
        simp only [Node.tag, Reading.nodeOf?, Reading.valueField?_of_field? found₁ same₁,
          Reading.required?_of_field? found₂ (Reading.string?_str member)]
        rfl
  | spread expression =>
      simp only [Node.children, List.forall_mem_cons] at h
      obtain ⟨⟨first, written₁, same₁⟩, -⟩ := h
      refine Node.exists_writtenAs_of_template [("expression", some first)] ?_ (by simp [tagKey]) ?_
      · simp [Node.encode?, written₁, Node.tag, Encode.tagged, Encode.fieldsOf, Encode.optional]
      · intro fields found
        simp only [List.forall_mem_cons] at found
        simp only [Node.tag, Reading.nodeOf?, Reading.valueField?_of_field? found.1 same₁]
        rfl

/-! ## §5. Values -/

/-- A value that may be read back if all that stands inside of it is: a plain object has
each name once, and does not look like a node. -/
def Value.Stable : Value → Prop
  | .obj entries => (Pairs.keys entries).Nodup ∧ ∀ fields, Encode.entries? entries = some fields →
      Reading.node? (ofPairs fields) = none
  | .node inner => inner.Stable
  | _ => True

/-- **A value that is stable at every depth is read back from its tree.** -/
theorem Value.Everywhere.rereads {value : Value} (h : value.Everywhere Value.Stable) :
    value.Rereads := by
  induction h with
  | @intro value here _ ih =>
      cases value with
      | null => exact ⟨.null, rfl, rfl⟩
      | bool b => exact ⟨.bool b, rfl, rfl⟩
      | num n => exact ⟨.num n, rfl, rfl⟩
      | str s => exact ⟨.str s, rfl, rfl⟩
      | arr items =>
          replace ih : ∀ child ∈ items, child.Rereads := ih
          obtain ⟨trees, written, same⟩ := Encode.rereads_list ih
          refine ⟨.arr trees, ?_, ?_⟩
          · rw [Value.encode?, written]
            rfl
          · show Value.arr (Reading.values (ofItems trees)) = _
            rw [Reading.values_eq_map, same]
      | node node =>
          obtain ⟨fields, written⟩ := Node.exists_writtenAs here ih
          refine ⟨.obj fields, written.encode, ?_⟩
          show (Reading.ofFields (ofPairs fields)).value = _
          rw [Reading.ofFields, Reading.value]
          simp only [written.node?]
      | obj entries =>
          obtain ⟨fields, written, same⟩ := Encode.rereads_entries ih
          refine ⟨.obj fields, ?_, ?_⟩
          · rw [Value.encode?, written]
            rfl
          · show (Reading.ofFields (ofPairs fields)).value = _
            have nodup : (Pairs.keys entries).Nodup := here.1
            rw [Reading.ofFields, Reading.value]
            simp only [here.2 fields written, same, Pairs.merge_of_nodup nodup]

end FlatBundle
