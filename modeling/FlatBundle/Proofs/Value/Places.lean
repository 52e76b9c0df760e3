/-
  FlatBundle.Proofs.Value.Places
  ──────────────────────────────
  **PLACES INSIDE OF A VALUE.**

  A place is a list of numbers: which of the values inside of a value to go to, then which
  inside of that one, and so on (`Value.find?`).  Conversion keeps places.  Three things can
  happen to what stands at one:

    • it is converted, as almost everything is,
    • it is copied, inside of a static member that is no function and of what describes an
      error (`Value.slots` tells which),
    • it is gone, inside of a reference that is replaced as a whole.

  `Value.find?_rewrite` says what the result has at a place of the first two kinds, and
  `Value.place?_of_find?` that there is no fourth.
-/
import FlatBundle.Proofs.Value.Parts

namespace FlatBundle

/-! ## §1. Places -/

/-- The values directly inside of a node that outlast conversion, in order, each with
whether it is converted. -/
def Node.slots : Node → List (Bool × Value)
  | .cls base _ decorators members statics =>
      ((members.getD []).flatMap fun member => member.2.flatMap Member.parts).map (true, ·)
        ++ ((statics.getD []).map (fun pair => (pair.2.isFunction, pair.2))
          ++ (base.toList ++ decorators.getD []).map (true, ·))
  | .err _ _ _ context _ => (context.getD []).map fun pair => (false, pair.2)
  | node => node.parts.map (true, ·)

/-- The values directly inside of a value that outlast conversion. -/
def Value.slots : Value → List (Bool × Value)
  | .node inner => inner.slots
  | value => value.parts.map (true, ·)

/-- What stands at a place of a value. -/
def Value.find? : List Nat → Value → Option Value
  | [], value => some value
  | number :: rest, value => value.slots[number]?.bind fun slot => slot.2.find? rest

/-- Whether a value is a reference that is met. -/
def Value.isMet (sources : Sources) (module : String) (value : Value) : Bool :=
  (value.reference?.map (·.isMet sources module)).getD false

/-- What stands at a place, and whether it is converted; nothing inside of a reference that
is replaced as a whole. -/
def Value.place? (sources : Sources) (module : String) :
    Bool → List Nat → Value → Option (Bool × Value)
  | converted, [], value => some (converted, value)
  | converted, number :: rest, value =>
      if converted && value.isMet sources module then none
      else value.slots[number]?.bind fun slot =>
        slot.2.place? sources module (converted && slot.1) rest

/-- A place inside of another one. -/
theorem Value.find?_append (outer inner : List Nat) (value : Value) :
    value.find? (outer ++ inner) = (value.find? outer).bind (Value.find? inner) := by
  induction outer generalizing value with
  | nil => rfl
  | cons number rest ih =>
      show (value.slots[number]?.bind fun slot => slot.2.find? (rest ++ inner)) = _
      simp only [ih]
      exact (Option.bind_assoc _ _ _).symm

/-! ## §2. The places of a rewritten value -/

section

variable {sources : Sources} {replace : Target → Value} {module : String}

/-- What conversion makes of a value that is converted or copied. -/
def Value.image (sources : Sources) (replace : Target → Value) (module : String)
    (converted : Bool) (value : Value) : Value :=
  if converted then value.rewrite sources replace module else value

theorem Value.isMet_eq_false {value : Value} (kept : value.isMet sources module = false) :
    ∀ reference, value.reference? = some reference → reference.isMet sources module = false := by
  intro reference refers
  rw [isMet, refers] at kept
  exact kept

theorem Value.map_image (values : List Value) :
    ((values.map (true, ·)).map fun slot => (slot.1, slot.2.image sources replace module slot.1))
      = (values.map (Value.rewrite sources replace module)).map (true, ·) := by
  rw [List.map_map, List.map_map]
  rfl

/-- Static members stay where they are, functions rewritten and all others copied. -/
theorem Rewrite.slots_statics? (statics : Option (List (String × Value))) :
    ((Rewrite.statics? sources replace module statics).getD []).map
        (fun pair => (pair.2.isFunction, pair.2))
      = ((statics.getD []).map fun pair => (pair.2.isFunction, pair.2)).map
          fun slot => (slot.1, slot.2.image sources replace module slot.1) := by
  cases statics with
  | none => rfl
  | some statics =>
      show (Rewrite.statics sources replace module statics).map _ = (statics.map _).map _
      induction statics with
      | nil => rfl
      | cons pair rest ih =>
          obtain ⟨name, value⟩ := pair
          have copied : value.isFunction = false →
              ((name, value) :: Rewrite.statics sources replace module rest).map
                  (fun pair => (pair.2.isFunction, pair.2))
                = (((name, value) :: rest).map fun pair => (pair.2.isFunction, pair.2)).map
                    fun slot => (slot.1, slot.2.image sources replace module slot.1) := by
            intro other
            simp only [List.map_cons, other, ih, Value.image, if_neg Bool.false_ne_true]
          cases value with
          | node node =>
              cases node with
              | func parameters defaults body =>
                  rw [Rewrite.statics, List.map_cons, List.map_cons, List.map_cons, ih]
                  rfl
              | _ => exact copied rfl
          | _ => exact copied rfl

/-- A reference that is not met is a reference again. -/
theorem Reference.exists_rewrite_eq {reference : Reference}
    (kept : reference.isMet sources module = false) :
    ∃ other, reference.rewrite sources replace module = .ofReference other := by
  cases reference with
  | bundled id => exact ⟨_, rfl⟩
  | global | imported | default | module =>
      rw [isMet] at kept
      exact ⟨_, by rw [Reference.rewrite, if_neg (by simp [kept])]⟩

/-- **The slots of a rewritten value**: those that are converted are rewritten, the others
are copied, and all stay in their places. -/
theorem Value.slots_rewrite {value : Value} (kept : value.isMet sources module = false) :
    (value.rewrite sources replace module).slots
      = value.slots.map fun slot => (slot.1, slot.2.image sources replace module slot.1) := by
  have parts : (value.rewrite sources replace module).parts
      = value.parts.map (Value.rewrite sources replace module) :=
    Value.parts_rewrite (Value.isMet_eq_false kept)
  cases value with
  | null | bool | num | str => rfl
  | arr items | obj entries => exact (congrArg (List.map (true, ·)) parts).trans (map_image _).symm
  | node node =>
      cases node with
      | cls base arity decorators members statics =>
          simp only [Value.rewrite, Node.rewrite, Value.slots, Node.slots, List.map_append,
            Rewrite.slots_statics?, Rewrite.flatMap_members?, Rewrite.toList_value?,
            Rewrite.getD_list?, Value.map_image]
      | err message line character context mark =>
          simp [Value.rewrite, Node.rewrite, Value.slots, Node.slots, Value.image]
      | ref reference =>
          obtain ⟨other, stays⟩ : ∃ other, reference.rewrite sources replace module
              = .ofReference other :=
            Reference.exists_rewrite_eq (Value.isMet_eq_false kept reference rfl)
          replace stays : (Value.node (.ref reference)).rewrite sources replace module
            = .ofReference other := stays
          rw [stays] at parts ⊢
          exact (congrArg (List.map (true, ·)) parts).trans (map_image _).symm
      | _ => exact (congrArg (List.map (true, ·)) parts).trans (map_image _).symm

/-- **What stands at a place of a value stands there in the result**, rewritten or copied. -/
theorem Value.find?_rewrite {place : List Nat} {converted final : Bool} {value part : Value}
    (h : value.place? sources module converted place = some (final, part)) :
    (value.image sources replace module converted).find? place
      = some (part.image sources replace module final) := by
  induction place generalizing value converted with
  | nil =>
      cases h
      rfl
  | cons number rest ih =>
      rw [place?] at h
      split at h
      · cases h
      next kept =>
      obtain ⟨slot, hslot, inside⟩ := Option.bind_eq_some_iff.1 h
      have there := ih inside
      cases converted with
      | true =>
          show ((value.rewrite sources replace module).slots[number]?.bind _) = _
          rw [Value.slots_rewrite (by simpa using kept), List.getElem?_map, hslot]
          exact there
      | false =>
          show (value.slots[number]?.bind _) = _
          rw [hslot]
          exact there

/-- At a place inside of which a value stands, it is converted, or copied, or inside of a
reference that is replaced as a whole. -/
theorem Value.place?_of_find? {place : List Nat} {value part : Value}
    (found : value.find? place = some part) (converted : Bool) :
    (∃ final, value.place? sources module converted place = some (final, part))
      ∨ ∃ front back reference, place = front ++ back ∧ back ≠ []
        ∧ value.place? sources module converted front = some (true, reference)
        ∧ reference.isMet sources module = true := by
  induction place generalizing value converted with
  | nil =>
      cases found
      exact Or.inl ⟨converted, rfl⟩
  | cons number rest ih =>
      obtain ⟨slot, hslot, inside⟩ := Option.bind_eq_some_iff.1 found
      by_cases met : (converted && value.isMet sources module) = true
      · obtain ⟨rfl, met⟩ := Bool.and_eq_true_iff.1 met
        exact Or.inr ⟨[], number :: rest, value, rfl, List.cons_ne_nil _ _, rfl, met⟩
      · have step : ∀ path, value.place? sources module converted (number :: path)
            = slot.2.place? sources module (converted && slot.1) path := by
          intro path
          rw [place?, if_neg met, hslot]
          rfl
        rcases ih inside (converted && slot.1) with
          ⟨final, here⟩ | ⟨front, back, reference, rfl, some, here, replaced⟩
        · exact Or.inl ⟨final, (step rest).trans here⟩
        · exact Or.inr ⟨number :: front, back, reference, rfl, some, (step front).trans here,
            replaced⟩

/-- What is converted or copied at a place stands there. -/
theorem Value.find?_of_place? {place : List Nat} {converted final : Bool} {value part : Value}
    (h : value.place? sources module converted place = some (final, part)) :
    value.find? place = some part := by
  induction place generalizing value converted with
  | nil =>
      cases h
      rfl
  | cons number rest ih =>
      rw [place?] at h
      split at h
      · cases h
      · obtain ⟨slot, hslot, inside⟩ := Option.bind_eq_some_iff.1 h
        exact Option.bind_eq_some_iff.2 ⟨slot, hslot, ih inside⟩

/-- What stands in front of a place of a value has a place itself. -/
theorem Value.place?_append {outer inner : List Nat} {converted final : Bool} {value part : Value}
    (h : value.place? sources module converted (outer ++ inner) = some (final, part)) :
    ∃ middle whole, value.place? sources module converted outer = some (middle, whole)
      ∧ whole.place? sources module middle inner = some (final, part) := by
  induction outer generalizing value converted with
  | nil => exact ⟨converted, value, rfl, h⟩
  | cons number rest ih =>
      rw [List.cons_append, place?] at h
      split at h
      · cases h
      next kept =>
      obtain ⟨slot, hslot, inside⟩ := Option.bind_eq_some_iff.1 h
      obtain ⟨middle, whole, here, there⟩ := ih inside
      refine ⟨middle, whole, ?_, there⟩
      rw [place?, if_neg kept, hslot]
      exact here

/-! ## §3. The names that are met at a place -/

theorem Targets.list_eq_flatMap (values : List Value) :
    Targets.list sources module values = values.flatMap (Value.targets sources module) := by
  induction values with
  | nil => rfl
  | cons value rest ih => rw [Targets.list, ih, List.flatMap_cons]

theorem Targets.list?_eq_flatMap (values : Option (List Value)) :
    Targets.list? sources module values
      = (values.getD []).flatMap (Value.targets sources module) := by
  cases values with
  | none => rfl
  | some values => exact Targets.list_eq_flatMap values

theorem Targets.value?_eq_flatMap (value : Option Value) :
    Targets.value? sources module value
      = value.toList.flatMap (Value.targets sources module) := by
  cases value with
  | none => rfl
  | some value => exact (List.append_nil _).symm

theorem Targets.entries_eq_flatMap (entries : List (String × Value)) :
    Targets.entries sources module entries
      = (entries.map Prod.snd).flatMap (Value.targets sources module) := by
  induction entries with
  | nil => rfl
  | cons entry rest ih =>
      rw [Targets.entries, ih]
      rfl

theorem Targets.lists?_eq_flatMap (lists : Option (List (Option (List Value)))) :
    Targets.lists? sources module lists
      = ((lists.getD []).flatMap (·.getD [])).flatMap (Value.targets sources module) := by
  cases lists with
  | none => rfl
  | some lists =>
      show Targets.lists sources module lists = (lists.flatMap (·.getD [])).flatMap _
      induction lists with
      | nil => rfl
      | cons decorators rest ih =>
          rw [Targets.lists, ih, List.flatMap_cons, List.flatMap_append,
            Targets.list?_eq_flatMap]

theorem Member.targets_eq_flatMap (member : Member) :
    member.targets sources module = member.parts.flatMap (Value.targets sources module) := by
  cases member with
  | constructor decorators parameterDecorators parameters
  | method decorators parameterDecorators parameters | property decorators =>
      simp only [Member.targets, Member.parts, List.flatMap_append, Targets.list?_eq_flatMap,
        Targets.lists?_eq_flatMap]

theorem Targets.overloads_eq_flatMap (overloads : List Member) :
    Targets.overloads sources module overloads
      = (overloads.flatMap Member.parts).flatMap (Value.targets sources module) := by
  induction overloads with
  | nil => rfl
  | cons member rest ih =>
      rw [Targets.overloads, ih, List.flatMap_cons, List.flatMap_append,
        Member.targets_eq_flatMap]

theorem Targets.members?_eq_flatMap (members : Option (List (String × List Member))) :
    Targets.members? sources module members
      = ((members.getD []).flatMap fun member => member.2.flatMap Member.parts).flatMap
          (Value.targets sources module) := by
  cases members with
  | none => rfl
  | some members =>
      show Targets.members sources module members = (members.flatMap _).flatMap _
      induction members with
      | nil => rfl
      | cons member rest ih =>
          rw [Targets.members, ih, List.flatMap_cons, List.flatMap_append,
            Targets.overloads_eq_flatMap]

theorem Targets.statics?_eq_flatMap (statics : Option (List (String × Value))) :
    Targets.statics? sources module statics
      = (((statics.getD []).map Prod.snd).filter Value.isFunction).flatMap
          (Value.targets sources module) := by
  cases statics with
  | none => rfl
  | some statics =>
      show Targets.statics sources module statics = ((statics.map _).filter _).flatMap _
      induction statics with
      | nil => rfl
      | cons pair rest ih =>
          obtain ⟨name, value⟩ := pair
          cases value with
          | node node =>
              cases node with
              | func parameters defaults body =>
                  rw [Targets.statics, ih, List.map_cons, List.filter_cons_of_pos rfl,
                    List.flatMap_cons, ← List.append_assoc]
                  rfl
              | _ => exact ih
          | _ => exact ih

/-- **The names that are met in a value** are those that are met in its parts, unless the
value is a reference that is met itself. -/
theorem Value.targets_eq_flatMap {value : Value} (kept : value.isMet sources module = false) :
    value.targets sources module = value.parts.flatMap (Value.targets sources module) := by
  cases value with
  | null | bool | num | str => rfl
  | arr items => exact Targets.list_eq_flatMap items
  | obj entries => exact Targets.entries_eq_flatMap entries
  | node node =>
      cases node with
      | ref reference =>
          have unmet := Value.isMet_eq_false kept reference rfl
          cases reference with
          | global name arguments | imported specifier name arguments
          | default specifier flag arguments =>
              rw [Reference.isMet] at unmet
              show Reference.targets sources module _ = _
              rw [Reference.targets, if_neg (by simp [unmet])]
              exact Targets.list?_eq_flatMap arguments
          | module | bundled => rfl
      | iface | err => rfl
      | _ =>
          simp only [Value.targets, Node.targets, Value.parts, Node.parts, List.flatMap_append,
            List.flatMap_cons, List.flatMap_nil, List.append_nil, Targets.members?_eq_flatMap,
            Targets.statics?_eq_flatMap, Targets.value?_eq_flatMap, Targets.list?_eq_flatMap]

/-- What is converted among the slots of a value is a part of it. -/
theorem Value.mem_parts_of_slots {value part : Value} (h : (true, part) ∈ value.slots) :
    part ∈ value.parts := by
  have plain : ∀ values : List Value, (true, part) ∈ values.map (true, ·) → part ∈ values := by
    intro values mem
    obtain ⟨_, mem, same⟩ := List.mem_map.1 mem
    exact (Prod.mk.inj same).2 ▸ mem
  cases value with
  | node node =>
      cases node with
      | cls base arity decorators members statics =>
          simp only [Value.slots, Node.slots, List.mem_append] at h
          simp only [Value.parts, Node.parts, List.mem_append]
          rw [← List.mem_append]
          refine h.imp (plain _) (Or.imp ?_ (plain _))
          intro mem
          obtain ⟨pair, hpair, same⟩ := List.mem_map.1 mem
          obtain ⟨function, rfl⟩ := Prod.mk.inj same
          exact List.mem_filter.2 ⟨List.mem_map_of_mem hpair, function⟩
      | err message line character context mark =>
          obtain ⟨_, _, same⟩ := List.mem_map.1 h
          cases same
      | _ => exact plain _ h
  | _ => exact plain _ h

/-- What is converted stands inside of what is converted. -/
theorem Value.converted_of_place? {place : List Nat} {converted : Bool} {value part : Value}
    (h : value.place? sources module converted place = some (true, part)) : converted = true := by
  induction place generalizing value converted with
  | nil =>
      cases h
      rfl
  | cons number rest ih =>
      rw [place?] at h
      split at h
      · cases h
      · obtain ⟨_, _, inside⟩ := Option.bind_eq_some_iff.1 h
        exact (Bool.and_eq_true_iff.1 (ih inside)).1

/-- **The names that are met at a place** are met in the whole value. -/
theorem Value.targets_subset_of_place? {place : List Nat} {converted : Bool} {value part : Value}
    (h : value.place? sources module converted place = some (true, part)) :
    part.targets sources module ⊆ value.targets sources module := by
  induction place generalizing value converted with
  | nil =>
      cases h
      exact List.Subset.refl _
  | cons number rest ih =>
      rw [place?] at h
      split at h
      · cases h
      next kept =>
      obtain ⟨⟨flag, slot⟩, hslot, inside⟩ := Option.bind_eq_some_iff.1 h
      obtain ⟨rfl, rfl⟩ := Bool.and_eq_true_iff.1 (Value.converted_of_place? inside)
      have among := Value.mem_parts_of_slots (List.mem_of_getElem? hslot)
      have unmet : value.isMet sources module = false := by simpa using kept
      rw [Value.targets_eq_flatMap unmet]
      exact fun name met => List.mem_flatMap.2 ⟨slot, among, ih inside met⟩

end

end FlatBundle
