/-
  FlatBundle.Proofs.Value.Children
  ────────────────────────────────
  **ALL THAT STANDS INSIDE OF A VALUE.**

  `Value.parts` are the places where conversion looks.  `Value.children` are all values that
  stand directly inside of a value, also where conversion does not look: in the context of an
  error, among the static members that are no functions, in the parameters of a method.

  `Value.Everywhere` says that a value and all that stands inside of it at any depth have a
  property.  It is the induction by which recursions on such values are followed: one step
  for each constructor, in which what holds of the children is known of all of them, and the
  lists between a value and its children are taken by plain induction.  As parts are children,
  it goes down to all that conversion comes to (`Value.Everywhere.of_contains`).
-/
import FlatBundle.Proofs.Value.Parts

namespace FlatBundle

/-! ## §1. Children -/

/-- The values that stand directly inside of a class member. -/
def Member.children : Member → List Value
  | .constructor decorators parameterDecorators parameters
  | .method decorators parameterDecorators parameters =>
      decorators.getD [] ++ ((parameterDecorators.getD []).flatMap (·.getD [])
        ++ parameters.getD [])
  | .property decorators => decorators.getD []

/-- The values that stand directly inside of a node. -/
def Node.children : Node → List Value
  | .cls base _ decorators members statics =>
      (members.getD []).flatMap (fun member => member.2.flatMap Member.children)
        ++ ((statics.getD []).map Prod.snd ++ (base.toList ++ decorators.getD []))
  | .iface => []
  | .func _ defaults body => defaults.getD [] ++ body.toList
  | .err _ _ _ context _ => (context.getD []).map Prod.snd
  | .ref reference => reference.parts
  | .binary _ left right => [left, right]
  | .index expression place => [expression, place]
  | .pre _ operand => [operand]
  | .cond condition thenValue elseValue => [condition, thenValue, elseValue]
  | .call callee arguments | .construct callee arguments => callee :: arguments.getD []
  | .select expression _ | .spread expression => [expression]

/-- The values that stand directly inside of a value. -/
def Value.children : Value → List Value
  | .null | .bool _ | .num _ | .str _ => []
  | .arr items => items
  | .obj entries => entries.map Prod.snd
  | .node inner => inner.children

/-! ## §2. Properties at every depth -/

/-- The value has the property, and so has all that stands inside of it at any depth. -/
inductive Value.Everywhere (p : Value → Prop) : Value → Prop where
  | intro {value : Value} (here : p value)
      (inside : ∀ child ∈ value.children, Value.Everywhere p child) : Everywhere p value

/-- Conversion looks at children only. -/
theorem Member.parts_subset_children (member : Member) : member.parts ⊆ member.children := by
  cases member with
  | constructor | property => exact fun part mem => mem
  | method decorators parameterDecorators parameters =>
      intro part mem
      rw [Member.children, ← List.append_assoc]
      exact List.mem_append_left _ mem

theorem Value.parts_subset_children (value : Value) : value.parts ⊆ value.children := by
  cases value with
  | null | bool | num | str | arr | obj => exact fun part mem => mem
  | node inner =>
      cases inner with
      | cls base arity decorators members statics =>
          intro part mem
          simp only [Value.parts, Node.parts, List.mem_append, List.mem_flatMap] at mem
          simp only [Value.children, Node.children, List.mem_append, List.mem_flatMap]
          refine mem.imp ?_ (Or.imp_left fun function => List.filter_sublist.subset function)
          rintro ⟨entry, hentry, member, hmember, mem⟩
          exact ⟨entry, hentry, member, hmember, member.parts_subset_children mem⟩
      | err => exact List.nil_subset _
      | _ => exact fun part mem => mem

/-- What holds everywhere in a value holds everywhere in what conversion leaves in it. -/
theorem Value.Everywhere.of_contains {p : Value → Prop} {value part : Value}
    (h : value.Everywhere p) (contains : value.Contains part) : part.Everywhere p := by
  induction contains with
  | refl => exact h
  | tail _ step ih =>
      cases ih with
      | intro _ inside => exact inside _ (Value.parts_subset_children _ step)

end FlatBundle
