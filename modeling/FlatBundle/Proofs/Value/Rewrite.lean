/-
  FlatBundle.Proofs.Value.Rewrite
  ───────────────────────────────
  **CONVERSION AS A REWRITING OF VALUES.**

  Conversion runs in the middle of a bundling run.  `Value.rewrite` says what
  comes out of it, as a plain recursion on the value: `replace` stands for the
  references that are met, everything else is copied but for three exceptions,

    • an error is marked with the module,
    • a method has no parameters,
    • a reference to a module of the library, or to its default export, is an
      error.

  `Value.targets` lists the names whose references are met, in order.
-/
import FlatBundle.Proofs.Run.Steps

namespace FlatBundle

/-! ## §1. Rewriting -/

/-- A name of a module, which a reference may stand for: the module, then the
name. -/
abbrev Target := String × String

/-- Whether a module declares a name. -/
def Sources.declares (sources : Sources) (module name : String) : Bool :=
  ((sources module).map (·.declares name)).getD false

section

variable (sources : Sources) (replace : Target → Value) (module : String)

mutual

/-- A value of `module`, rewritten. -/
def Value.rewrite : Value → Value
  | .null => .null
  | .bool b => .bool b
  | .num n => .num n
  | .str s => .str s
  | .arr items => .arr (Rewrite.list items)
  | .obj entries => .obj (Rewrite.entries entries)
  | .node node => node.rewrite

/-- A node of `module`, rewritten. -/
def Node.rewrite : Node → Value
  | .cls base arity decorators members statics =>
      .node (.cls (Rewrite.value? base) arity (Rewrite.list? decorators)
        (Rewrite.members? members) (Rewrite.statics? statics))
  | .iface => .node .iface
  | .func parameters defaults body =>
      .node (.func parameters (Rewrite.list? defaults) (Rewrite.value? body))
  | .err message line character context _ =>
      .node (.err message line character context (some module))
  | .ref reference => reference.rewrite
  | .binary operator left right => .node (.binary operator left.rewrite right.rewrite)
  | .index expression index => .node (.index expression.rewrite index.rewrite)
  | .pre operator operand => .node (.pre operator operand.rewrite)
  | .cond condition thenValue elseValue =>
      .node (.cond condition.rewrite thenValue.rewrite elseValue.rewrite)
  | .call callee arguments => .node (.call callee.rewrite (Rewrite.list? arguments))
  | .construct callee arguments => .node (.construct callee.rewrite (Rewrite.list? arguments))
  | .select expression member => .node (.select expression.rewrite member)
  | .spread expression => .node (.spread expression.rewrite)

/-- A reference in `module`, rewritten.  It is met if it stands for a name of the
library. -/
def Reference.rewrite : Reference → Value
  | .global name arguments =>
      if sources.declares module name then replace (module, name)
      else .ofReference (.global name (Rewrite.list? arguments))
  | .imported specifier name arguments =>
      if ModulePath.isRelative specifier then replace (ModulePath.resolve specifier module, name)
      else .ofReference (.imported specifier name (Rewrite.list? arguments))
  | .default specifier flag arguments =>
      if ModulePath.isRelative specifier then
        unsupportedReference unsupportedDefault specifier module
      else .ofReference (.default specifier flag (Rewrite.list? arguments))
  | .module specifier =>
      if ModulePath.isRelative specifier then
        unsupportedReference unsupportedModule specifier module
      else .ofReference (.module specifier)
  | .bundled id => .ofReference (.bundled id)

/-- A class member, rewritten. -/
def Member.rewrite : Member → Member
  | .constructor decorators parameterDecorators parameters =>
      .constructor (Rewrite.list? decorators) (Rewrite.lists? parameterDecorators)
        (Rewrite.list? parameters)
  | .method decorators parameterDecorators _ =>
      .method (Rewrite.list? decorators) (Rewrite.lists? parameterDecorators) none
  | .property decorators => .property (Rewrite.list? decorators)

/-- Values, rewritten. -/
def Rewrite.list : List Value → List Value
  | [] => []
  | value :: rest => value.rewrite :: Rewrite.list rest

/-- Named values, rewritten. -/
def Rewrite.entries : List (String × Value) → List (String × Value)
  | [] => []
  | (name, value) :: rest => (name, value.rewrite) :: Rewrite.entries rest

/-- A value that may be absent, rewritten. -/
def Rewrite.value? : Option Value → Option Value
  | none => none
  | some value => some value.rewrite

/-- A list that may be absent, rewritten. -/
def Rewrite.list? : Option (List Value) → Option (List Value)
  | none => none
  | some values => some (Rewrite.list values)

/-- The decorators of parameters that may be absent, rewritten. -/
def Rewrite.lists? : Option (List (Option (List Value))) → Option (List (Option (List Value)))
  | none => none
  | some lists => some (Rewrite.lists lists)

/-- The decorators of each parameter, rewritten. -/
def Rewrite.lists : List (Option (List Value)) → List (Option (List Value))
  | [] => []
  | decorators :: rest => Rewrite.list? decorators :: Rewrite.lists rest

/-- Members that may be absent, rewritten. -/
def Rewrite.members? :
    Option (List (String × List Member)) → Option (List (String × List Member))
  | none => none
  | some members => some (Rewrite.members members)

/-- The members of a class, rewritten. -/
def Rewrite.members : List (String × List Member) → List (String × List Member)
  | [] => []
  | (name, overloads) :: rest => (name, Rewrite.overloads overloads) :: Rewrite.members rest

/-- The members of one name, rewritten. -/
def Rewrite.overloads : List Member → List Member
  | [] => []
  | member :: rest => member.rewrite :: Rewrite.overloads rest

/-- Static members that may be absent, rewritten. -/
def Rewrite.statics? : Option (List (String × Value)) → Option (List (String × Value))
  | none => none
  | some statics => some (Rewrite.statics statics)

/-- Static members, rewritten: functions only. -/
def Rewrite.statics : List (String × Value) → List (String × Value)
  | [] => []
  | (name, .node (.func parameters defaults body)) :: rest =>
      (name, .node (.func parameters (Rewrite.list? defaults) (Rewrite.value? body)))
        :: Rewrite.statics rest
  | (name, value) :: rest => (name, value) :: Rewrite.statics rest

end

end

/-! ## §2. The references that are met -/

section

variable (sources : Sources) (module : String)

mutual

/-- The names that the references met in a value of `module` stand for, in the
order in which conversion meets them. -/
def Value.targets : Value → List Target
  | .null | .bool _ | .num _ | .str _ => []
  | .arr items => Targets.list items
  | .obj entries => Targets.entries entries
  | .node node => node.targets

/-- The names that are met in a node. -/
def Node.targets : Node → List Target
  | .cls base _ decorators members statics =>
      Targets.members? members ++ (Targets.statics? statics
        ++ (Targets.value? base ++ Targets.list? decorators))
  | .iface | .err .. => []
  | .func _ defaults body => Targets.list? defaults ++ Targets.value? body
  | .ref reference => reference.targets
  | .binary _ left right => left.targets ++ right.targets
  | .index expression index => expression.targets ++ index.targets
  | .pre _ operand => operand.targets
  | .cond condition thenValue elseValue =>
      condition.targets ++ (thenValue.targets ++ elseValue.targets)
  | .call callee arguments => callee.targets ++ Targets.list? arguments
  | .construct callee arguments => callee.targets ++ Targets.list? arguments
  | .select expression _ => expression.targets
  | .spread expression => expression.targets

/-- The name that a reference stands for if it is met; otherwise those that are
met in its arguments. -/
def Reference.targets : Reference → List Target
  | .global name arguments =>
      if sources.declares module name then [(module, name)] else Targets.list? arguments
  | .imported specifier name arguments =>
      if ModulePath.isRelative specifier then [(ModulePath.resolve specifier module, name)]
      else Targets.list? arguments
  | .default specifier _ arguments =>
      if ModulePath.isRelative specifier then [] else Targets.list? arguments
  | .module _ | .bundled _ => []

/-- The names that are met in a class member. -/
def Member.targets : Member → List Target
  | .constructor decorators parameterDecorators parameters =>
      Targets.list? decorators ++ (Targets.lists? parameterDecorators
        ++ Targets.list? parameters)
  | .method decorators parameterDecorators _ =>
      Targets.list? decorators ++ Targets.lists? parameterDecorators
  | .property decorators => Targets.list? decorators

/-- The names that are met in values. -/
def Targets.list : List Value → List Target
  | [] => []
  | value :: rest => value.targets ++ Targets.list rest

/-- The names that are met in named values. -/
def Targets.entries : List (String × Value) → List Target
  | [] => []
  | (_, value) :: rest => value.targets ++ Targets.entries rest

/-- The names that are met in a value that may be absent. -/
def Targets.value? : Option Value → List Target
  | none => []
  | some value => value.targets

/-- The names that are met in a list that may be absent. -/
def Targets.list? : Option (List Value) → List Target
  | none => []
  | some values => Targets.list values

/-- The names that are met in decorators of parameters that may be absent. -/
def Targets.lists? : Option (List (Option (List Value))) → List Target
  | none => []
  | some lists => Targets.lists lists

/-- The names that are met in the decorators of each parameter. -/
def Targets.lists : List (Option (List Value)) → List Target
  | [] => []
  | decorators :: rest => Targets.list? decorators ++ Targets.lists rest

/-- The names that are met in members that may be absent. -/
def Targets.members? : Option (List (String × List Member)) → List Target
  | none => []
  | some members => Targets.members members

/-- The names that are met in the members of a class. -/
def Targets.members : List (String × List Member) → List Target
  | [] => []
  | (_, overloads) :: rest => Targets.overloads overloads ++ Targets.members rest

/-- The names that are met in the members of one name. -/
def Targets.overloads : List Member → List Target
  | [] => []
  | member :: rest => member.targets ++ Targets.overloads rest

/-- The names that are met in static members that may be absent. -/
def Targets.statics? : Option (List (String × Value)) → List Target
  | none => []
  | some statics => Targets.statics statics

/-- The names that are met in static members: in functions only. -/
def Targets.statics : List (String × Value) → List Target
  | [] => []
  | (_, .node (.func _ defaults body)) :: rest =>
      Targets.list? defaults ++ (Targets.value? body ++ Targets.statics rest)
  | _ :: rest => Targets.statics rest

end

end

end FlatBundle
