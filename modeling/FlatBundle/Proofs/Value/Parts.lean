/-
  FlatBundle.Proofs.Value.Parts
  ─────────────────────────────
  **WHAT STANDS INSIDE OF A VALUE.**

  Conversion goes from a value to its parts, and from a reference that is met to
  nothing, as that is replaced as a whole.

    • `Value.parts_rewrite`: the parts of a rewritten value are the rewritten parts,
    • `Value.Reaches.rewrite`: so whatever conversion comes to is there, rewritten, in
      the result.
-/
import FlatBundle.Proofs.Value.Rewrite
import Mathlib.Logic.Relation

namespace FlatBundle

/-! ## §1. Parts -/

/-- The parts of a class member.  The parameters of a method are dropped. -/
def Member.parts : Member → List Value
  | .constructor decorators parameterDecorators parameters =>
      decorators.getD [] ++ ((parameterDecorators.getD []).flatMap (·.getD [])
        ++ parameters.getD [])
  | .method decorators parameterDecorators _ =>
      decorators.getD [] ++ (parameterDecorators.getD []).flatMap (·.getD [])
  | .property decorators => decorators.getD []

/-- The arguments of a reference. -/
def Reference.parts : Reference → List Value
  | .global _ arguments | .imported _ _ arguments | .default _ _ arguments => arguments.getD []
  | .module _ | .bundled _ => []

/-- Whether a value is a function. -/
def Value.isFunction : Value → Bool
  | .node (.func ..) => true
  | _ => false

/-- The parts of a node.  Of static members only functions are looked at, and nothing
of an error. -/
def Node.parts : Node → List Value
  | .cls base _ decorators members statics =>
      (members.getD []).flatMap (fun member => member.2.flatMap Member.parts)
        ++ (((statics.getD []).map Prod.snd).filter Value.isFunction
          ++ (base.toList ++ decorators.getD []))
  | .iface | .err .. => []
  | .func _ defaults body => defaults.getD [] ++ body.toList
  | .ref reference => reference.parts
  | .binary _ left right => [left, right]
  | .index expression place => [expression, place]
  | .pre _ operand => [operand]
  | .cond condition thenValue elseValue => [condition, thenValue, elseValue]
  | .call callee arguments | .construct callee arguments => callee :: arguments.getD []
  | .select expression _ | .spread expression => [expression]

/-- The values that stand directly inside of a value, where conversion looks. -/
def Value.parts : Value → List Value
  | .null | .bool _ | .num _ | .str _ => []
  | .arr items => items
  | .obj entries => entries.map Prod.snd
  | .node inner => inner.parts

/-- The value has the other one somewhere inside of it. -/
def Value.Contains : Value → Value → Prop :=
  Relation.ReflTransGen fun value part => part ∈ value.parts

/-! ## §2. The parts of a rewritten value -/

section

variable {sources : Sources} {replace : Target → Value} {module : String}

theorem Rewrite.list_eq_map (values : List Value) :
    Rewrite.list sources replace module values
      = values.map (Value.rewrite sources replace module) := by
  induction values with
  | nil => rfl
  | cons value rest ih => rw [Rewrite.list, ih, List.map_cons]

theorem Rewrite.getD_list? (values : Option (List Value)) :
    (Rewrite.list? sources replace module values).getD []
      = (values.getD []).map (Value.rewrite sources replace module) := by
  cases values with
  | none => rfl
  | some values => exact Rewrite.list_eq_map values

theorem Rewrite.toList_value? (value : Option Value) :
    (Rewrite.value? sources replace module value).toList
      = value.toList.map (Value.rewrite sources replace module) := by
  cases value <;> rfl

theorem Rewrite.snd_entries (entries : List (String × Value)) :
    (Rewrite.entries sources replace module entries).map Prod.snd
      = (entries.map Prod.snd).map (Value.rewrite sources replace module) := by
  induction entries with
  | nil => rfl
  | cons entry rest ih =>
      rw [Rewrite.entries, List.map_cons, ih]
      rfl

theorem Rewrite.flatMap_lists? (lists : Option (List (Option (List Value)))) :
    ((Rewrite.lists? sources replace module lists).getD []).flatMap (·.getD [])
      = ((lists.getD []).flatMap (·.getD [])).map (Value.rewrite sources replace module) := by
  cases lists with
  | none => rfl
  | some lists =>
      show (Rewrite.lists sources replace module lists).flatMap (·.getD [])
        = (lists.flatMap (·.getD [])).map _
      induction lists with
      | nil => rfl
      | cons decorators rest ih =>
          rw [Rewrite.lists, List.flatMap_cons, List.flatMap_cons, List.map_append, ih,
            Rewrite.getD_list?]

theorem Member.parts_rewrite (member : Member) :
    (member.rewrite sources replace module).parts
      = member.parts.map (Value.rewrite sources replace module) := by
  cases member with
  | constructor decorators parameterDecorators parameters =>
      rw [Member.rewrite, Member.parts, Member.parts, List.map_append, List.map_append,
        Rewrite.getD_list?, Rewrite.getD_list?, Rewrite.flatMap_lists?]
  | method decorators parameterDecorators parameters =>
      rw [Member.rewrite, Member.parts, Member.parts, List.map_append, Rewrite.getD_list?,
        Rewrite.flatMap_lists?]
  | property decorators =>
      rw [Member.rewrite, Member.parts, Member.parts, Rewrite.getD_list?]

theorem Rewrite.flatMap_overloads (overloads : List Member) :
    (Rewrite.overloads sources replace module overloads).flatMap Member.parts
      = (overloads.flatMap Member.parts).map (Value.rewrite sources replace module) := by
  induction overloads with
  | nil => rfl
  | cons member rest ih =>
      rw [Rewrite.overloads, List.flatMap_cons, List.flatMap_cons, List.map_append, ih,
        Member.parts_rewrite]

theorem Rewrite.flatMap_members? (members : Option (List (String × List Member))) :
    ((Rewrite.members? sources replace module members).getD []).flatMap
        (fun member => member.2.flatMap Member.parts)
      = ((members.getD []).flatMap fun member => member.2.flatMap Member.parts).map
          (Value.rewrite sources replace module) := by
  cases members with
  | none => rfl
  | some members =>
      show (Rewrite.members sources replace module members).flatMap _ = (members.flatMap _).map _
      induction members with
      | nil => rfl
      | cons member rest ih =>
          rw [Rewrite.members, List.flatMap_cons, List.flatMap_cons, List.map_append, ih,
            Rewrite.flatMap_overloads]

/-- Static members that are functions are rewritten, all others are copied. -/
theorem Rewrite.functions_statics? (statics : Option (List (String × Value))) :
    (((Rewrite.statics? sources replace module statics).getD []).map Prod.snd).filter
        Value.isFunction
      = (((statics.getD []).map Prod.snd).filter Value.isFunction).map
          (Value.rewrite sources replace module) := by
  cases statics with
  | none => rfl
  | some statics =>
      show ((Rewrite.statics sources replace module statics).map Prod.snd).filter _
        = ((statics.map Prod.snd).filter _).map _
      induction statics with
      | nil => rfl
      | cons pair rest ih =>
          obtain ⟨name, value⟩ := pair
          have copied : value.isFunction = false →
              (((name, value) :: Rewrite.statics sources replace module rest).map Prod.snd).filter
                  Value.isFunction
                = ((((name, value) :: rest).map Prod.snd).filter Value.isFunction).map
                    (Value.rewrite sources replace module) := by
            intro other
            rw [List.map_cons, List.map_cons, List.filter_cons_of_neg (by simp [other]),
              List.filter_cons_of_neg (by simp [other]), ih]
          cases value with
          | node node =>
              cases node with
              | func parameters defaults body =>
                  rw [Rewrite.statics, List.map_cons, List.map_cons, List.filter_cons_of_pos rfl,
                    List.filter_cons_of_pos rfl, List.map_cons, ih]
                  rfl
              | _ => exact copied rfl
          | _ => exact copied rfl

/-! ## §3. What conversion comes to -/

/-- The reference is met: conversion replaces it as a whole. -/
def Reference.isMet (sources : Sources) (module : String) : Reference → Bool
  | .global name _ => sources.declares module name
  | .imported specifier _ _ | .default specifier _ _ | .module specifier =>
      ModulePath.isRelative specifier
  | .bundled _ => false

/-- Conversion goes on from a value of `module` to a part of it. -/
structure Value.Enters (sources : Sources) (module : String) (value part : Value) : Prop where
  kept : ∀ reference, value.reference? = some reference → reference.isMet sources module = false
  mem : part ∈ value.parts

/-- Conversion of a value of `module` comes to a value inside of it. -/
def Value.Reaches (sources : Sources) (module : String) : Value → Value → Prop :=
  Relation.ReflTransGen (Value.Enters sources module)

theorem Reference.parts_rewrite {reference : Reference}
    (kept : reference.isMet sources module = false) :
    (reference.rewrite sources replace module).parts
      = reference.parts.map (Value.rewrite sources replace module) := by
  cases reference with
  | global name arguments =>
      replace kept : sources.declares module name = false := kept
      rw [Reference.rewrite, if_neg (by simp [kept])]
      exact Rewrite.getD_list? arguments
  | imported specifier name arguments =>
      replace kept : ModulePath.isRelative specifier = false := kept
      rw [Reference.rewrite, if_neg (by simp [kept])]
      exact Rewrite.getD_list? arguments
  | default specifier flag arguments =>
      replace kept : ModulePath.isRelative specifier = false := kept
      rw [Reference.rewrite, if_neg (by simp [kept])]
      exact Rewrite.getD_list? arguments
  | module specifier =>
      replace kept : ModulePath.isRelative specifier = false := kept
      rw [Reference.rewrite, if_neg (by simp [kept])]
      rfl
  | bundled id => rfl

/-- **The parts of a rewritten value are its rewritten parts**, unless the value has been
replaced as a whole. -/
theorem Value.parts_rewrite {value : Value} (kept : ∀ reference,
    value.reference? = some reference → reference.isMet sources module = false) :
    (value.rewrite sources replace module).parts
      = value.parts.map (Value.rewrite sources replace module) := by
  cases value with
  | null | bool | num | str => rfl
  | arr items => exact Rewrite.list_eq_map items
  | obj entries => exact Rewrite.snd_entries entries
  | node node =>
      cases node with
      | cls base arity decorators members statics =>
          simp only [Value.rewrite, Node.rewrite, Value.parts, Node.parts, List.map_append,
            Rewrite.flatMap_members?, Rewrite.functions_statics?, Rewrite.toList_value?,
            Rewrite.getD_list?]
      | func parameters defaults body =>
          simp only [Value.rewrite, Node.rewrite, Value.parts, Node.parts, List.map_append,
            Rewrite.toList_value?, Rewrite.getD_list?]
      | ref reference => exact Reference.parts_rewrite (kept reference rfl)
      | call callee arguments | construct callee arguments =>
          simp only [Value.rewrite, Node.rewrite, Value.parts, Node.parts, List.map_cons,
            Rewrite.getD_list?]
      | iface | err | binary | index | pre | cond | select | spread => rfl

/-- **What conversion comes to stands, rewritten, in the result.** -/
theorem Value.Reaches.rewrite {value part : Value} (reaches : value.Reaches sources module part)
    (replace : Target → Value) :
    (value.rewrite sources replace module).Contains (part.rewrite sources replace module) := by
  induction reaches with
  | refl => exact Relation.ReflTransGen.refl
  | @tail middle part _ step ih =>
      refine Relation.ReflTransGen.tail ih ?_
      rw [Value.parts_rewrite step.kept]
      exact List.mem_map_of_mem step.mem

end

end FlatBundle
