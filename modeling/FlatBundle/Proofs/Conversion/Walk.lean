/-
  FlatBundle.Proofs.Conversion.Walk
  ─────────────────────────────────
  **THE WALK OVER A VALUE DEPENDS ON HOW SYMBOLS ARE CONVERTED, AND ON NOTHING ELSE.**

  The walk over a value is told how to convert the symbols that it meets.  Given two such
  computations that are related, the two walks are related (`ConvertM.Walks.value`), where
  the relation is any that is kept by sequencing and holds of what a walk does besides:
  to look for a declaration of its module, to look up a symbol of its module or of one that
  the module names, and to read an identity.  It is enough that the relation holds of the
  steps which these consist of (`RunM.Congruence.walks`).  The same goes for looking up a
  declaration and walking over its value (`convertDeclaration`).
-/
import FlatBundle.Proofs.Run.Congruence

namespace FlatBundle

/-! ## §1. Values -/

/-- **A literal passes through conversion unchanged**: there is nothing to meet in it. -/
theorem Value.convert_of_isPrimitive {value : Value} (literal : value.isPrimitive = true)
    (convertSymbol : SymbolId → ConvertM Unit) (module : String) :
    value.convert convertSymbol module = Pure.pure value := by
  cases value with
  | null | bool | num | str => rfl
  | arr | obj | node => cases literal

/-- The relation is kept by all that a walk over a value of the module consists of, where `f`
and `g` convert symbols. -/
structure ConvertM.Walks (R : (α : Type) → ConvertM α → ConvertM α → Prop) (module : String)
    (f g : SymbolId → ConvertM Unit) : Prop extends ConvertM.Congruence R where
  declares : ∀ name, R Bool (liftM (FlatBundle.declares module name))
    (liftM (FlatBundle.declares module name))
  own : ∀ name, R SymbolId (liftM (settledSymbol module name)) (liftM (settledSymbol module name))
  other : ∀ specifier name,
    R SymbolId (liftM (settledSymbol (ModulePath.resolve specifier module) name))
      (liftM (settledSymbol (ModulePath.resolve specifier module) name))
  identity : ∀ id, R Canonical (settledIdentity id) (settledIdentity id)
  symbols : ∀ id, R Unit (f id) (g id)

namespace ConvertM.Walks

variable {R : (α : Type) → ConvertM α → ConvertM α → Prop} {f g : SymbolId → ConvertM Unit}
variable {module : String} (h : ConvertM.Walks R module f g)

include h

theorem referenceTo (id : SymbolId) : R _ (referenceTo f id) (referenceTo g id) := by
  refine h.bind (h.identity id) fun canonical => h.bindGet fun run other same => ?_
  rw [← same]
  let declaration := (run.symbols.get? canonical.declaration).getD default
  by_cases inside : ModulePath.isRelative declaration.module = true
  · simp only [declaration, inside, if_true]
    exact h.bind (h.symbols id) fun _ => h.pure _
  · simp only [declaration, inside]
    exact h.pure _

set_option linter.unusedSectionVars false

mutual

/-- **Two walks over one value are related** if they convert symbols in related ways. -/
theorem value : ∀ value : Value, R _ (value.convert f module) (value.convert g module)
  | .null | .bool _ | .num _ | .str _ => h.pure _
  | .arr items => h.map Value.arr (list items)
  | .obj entries => h.map Value.obj (entries_ entries)
  | .node node => node_ node

theorem node_ : ∀ node : Node, R _ (node.convert f module) (node.convert g module)
  | .cls base _ decorators members statics =>
      h.bind (members? members) fun _ =>
        h.bind (statics? statics) fun _ =>
          h.bind (value? base) fun _ =>
            h.bind (list? decorators) fun _ => h.pure _
  | .iface => h.pure _
  | .func _ defaults body =>
      h.bind (list? defaults) fun _ => h.bind (value? body) fun _ => h.pure _
  | .err .. => h.pure _
  | .ref reference => reference_ reference
  | .binary _ left right =>
      h.bind (value left) fun _ => h.bind (value right) fun _ => h.pure _
  | .index expression index =>
      h.bind (value expression) fun _ => h.bind (value index) fun _ => h.pure _
  | .pre _ operand => h.bind (value operand) fun _ => h.pure _
  | .cond condition thenValue elseValue =>
      h.bind (value condition) fun _ =>
        h.bind (value thenValue) fun _ => h.bind (value elseValue) fun _ => h.pure _
  | .call callee arguments =>
      h.bind (value callee) fun _ => h.bind (list? arguments) fun _ => h.pure _
  | .construct callee arguments =>
      h.bind (value callee) fun _ => h.bind (list? arguments) fun _ => h.pure _
  | .select expression _ => h.bind (value expression) fun _ => h.pure _
  | .spread expression => h.bind (value expression) fun _ => h.pure _

theorem reference_ : ∀ reference : Reference,
    R _ (reference.convert f module) (reference.convert g module)
  | .global name arguments => by
      have kept := h.map (fun arguments => Value.ofReference (.global name arguments))
        (list? arguments)
      refine h.bind (h.declares name) fun declared => ?_
      split
      · exact h.bind (h.own name) fun id => h.referenceTo id
      · exact kept
  | .imported specifier name arguments => by
      have kept := h.map (fun arguments => Value.ofReference (.imported specifier name arguments))
        (list? arguments)
      simp only [Reference.convert]
      split
      · exact h.bind (h.other specifier name) fun id => h.referenceTo id
      · exact kept
  | .default specifier flag arguments => by
      have kept := h.map (fun arguments => Value.ofReference (.default specifier flag arguments))
        (list? arguments)
      simp only [Reference.convert]
      split
      · exact h.pure _
      · exact kept
  | .module specifier => by
      simp only [Reference.convert]
      split <;> exact h.pure _
  | .bundled id => h.pure _

theorem member_ : ∀ member : Member, R _ (member.convert f module) (member.convert g module)
  | .constructor decorators parameterDecorators parameters =>
      h.bind (list? decorators) fun _ =>
        h.bind (lists? parameterDecorators) fun _ =>
          h.bind (list? parameters) fun _ => h.pure _
  | .method decorators parameterDecorators _ =>
      h.bind (list? decorators) fun _ => h.bind (lists? parameterDecorators) fun _ => h.pure _
  | .property decorators => h.bind (list? decorators) fun _ => h.pure _

theorem list : ∀ values : List Value, R _ (Convert.list f module values)
    (Convert.list g module values)
  | [] => h.pure _
  | value_ :: rest => h.bind (value value_) fun _ => h.bind (list rest) fun _ => h.pure _

theorem entries_ : ∀ entries : List (String × Value), R _ (Convert.entries f module entries)
    (Convert.entries g module entries)
  | [] => h.pure _
  | (_, value_) :: rest => h.bind (value value_) fun _ => h.bind (entries_ rest) fun _ => h.pure _

theorem value? : ∀ value? : Option Value, R _ (Convert.value? f module value?)
    (Convert.value? g module value?)
  | none => h.pure _
  | some value_ => h.bind (value value_) fun _ => h.pure _

theorem list? : ∀ values : Option (List Value), R _ (Convert.list? f module values)
    (Convert.list? g module values)
  | none => h.pure _
  | some values => h.bind (list values) fun _ => h.pure _

theorem lists? : ∀ lists : Option (List (Option (List Value))),
    R _ (Convert.lists? f module lists) (Convert.lists? g module lists)
  | none => h.pure _
  | some lists => h.bind (lists_ lists) fun _ => h.pure _

theorem lists_ : ∀ lists : List (Option (List Value)),
    R _ (Convert.lists f module lists) (Convert.lists g module lists)
  | [] => h.pure _
  | decorators :: rest => h.bind (list? decorators) fun _ => h.bind (lists_ rest) fun _ => h.pure _

theorem members? : ∀ members : Option (List (String × List Member)),
    R _ (Convert.members? f module members) (Convert.members? g module members)
  | none => h.pure _
  | some members => h.bind (members_ members) fun _ => h.pure _

theorem members_ : ∀ members : List (String × List Member),
    R _ (Convert.members f module members) (Convert.members g module members)
  | [] => h.pure _
  | (_, overloads) :: rest =>
      h.bind (overloads_ overloads) fun _ => h.bind (members_ rest) fun _ => h.pure _

theorem overloads_ : ∀ overloads : List Member,
    R _ (Convert.overloads f module overloads) (Convert.overloads g module overloads)
  | [] => h.pure _
  | member :: rest => h.bind (member_ member) fun _ => h.bind (overloads_ rest) fun _ => h.pure _

theorem statics? : ∀ statics : Option (List (String × Value)),
    R _ (Convert.statics? f module statics) (Convert.statics? g module statics)
  | none => h.pure _
  | some statics => h.bind (statics_ statics) fun _ => h.pure _

theorem statics_ : ∀ statics : List (String × Value),
    R _ (Convert.statics f module statics) (Convert.statics g module statics)
  | [] => h.pure _
  | (name, value_) :: rest => by
      have copied := h.bind (statics_ rest) fun rest => h.pure ((name, value_) :: rest)
      cases value_ with
      | node node =>
          cases node with
          | func parameters defaults body =>
              exact h.bind (list? defaults) fun _ => h.bind (value? body) fun _ =>
                h.bind (statics_ rest) fun _ => h.pure _
          | _ => exact copied
      | _ => exact copied

end

end ConvertM.Walks

/-! ## §2. What a walk looks up -/

namespace RunM.Congruence

variable {R : (α : Type) → RunM α → RunM α → Prop} (h : RunM.Congruence R) {module : String}

include h

theorem askExports (resolves : R _ (exportAll module) (exportAll module))
    (answers : R _ (RunM.perform (.answer module)) (RunM.perform (.answer module))) :
    R _ (askExports module) (askExports module) :=
  h.bind resolves fun exported => h.bind answers fun _ => h.pure exported

theorem declares (document : R _ (RunM.document module) (RunM.document module)) (name : String) :
    R _ (declares module name) (declares module name) := by
  refine h.bind document fun found => ?_
  cases found with
  | some found => exact h.pure (found.declares name)
  | none => exact h.pure false

/-- **A walk over a value of a module**, where `P` holds of the module, and of all modules that
are named in such a module: the relation has to hold of what is looked up in modules with
`P`. -/
theorem walks {P : String → Prop} (resolve : ∀ specifier, P (ModulePath.resolve specifier module))
    (document : ∀ other, P other → R _ (RunM.document other) (RunM.document other))
    (asks : ∀ other, P other →
      R _ (FlatBundle.askExports other) (FlatBundle.askExports other))
    (symbolOf : ∀ other name, P other →
      R _ (RunM.symbolOf other name) (RunM.symbolOf other name))
    (canonical : ∀ id, R _ (RunM.canonical id) (RunM.canonical id))
    (identity : ∀ id, R _ (settledIdentity id).run (settledIdentity id).run)
    {f g : SymbolId → ConvertM Unit} (symbols : ∀ id, R _ (f id).run (g id).run)
    (here : P module) :
    ConvertM.Walks (fun _ x y => R _ x.run y.run) module f g := by
  have settled : ∀ other name, P other →
      R _ (settledSymbol other name) (settledSymbol other name) := fun other name placed =>
    h.bind (asks other placed) fun _ => h.bind (symbolOf other name placed) fun id =>
      h.bind (canonical id) fun _ => h.pure id
  exact { h.convertM with
    declares := fun name => h.lift (h.declares (document module here) name)
    own := fun name => h.lift (settled module name here)
    other := fun specifier name => h.lift (settled _ name (resolve specifier))
    identity := identity
    symbols := symbols }

end RunM.Congruence

/-! ## §3. Declarations -/

/-- What is stored of two related conversions is related. -/
theorem ConvertM.Congruence.storeConverted {R : (α : Type) → ConvertM α → ConvertM α → Prop}
    (h : ConvertM.Congruence R) {target : SymbolId}
    (begins : R Unit (liftM (RunM.perform (.convert target)))
      (liftM (RunM.perform (.convert target))))
    (stores : ∀ value, R Unit (liftM (RunM.perform (.store target value)))
      (liftM (RunM.perform (.store target value))))
    {x y : ConvertM Value} (related : R Value x y) :
    R Unit (FlatBundle.storeConverted target x) (FlatBundle.storeConverted target y) :=
  h.bind begins fun _ => h.bind related stores

/-- Putting in the value of a declaration: what comes before the value is stored is related
as a walk is, and `S` says how the ends are related.  The modules that symbols belong to may
be known to have a property `P`. -/
theorem ConvertM.Walks.convertDeclaration {R : (α : Type) → ConvertM α → ConvertM α → Prop}
    {P : String → Prop} {f g : SymbolId → ConvertM Unit}
    (h : ∀ module, P module → ConvertM.Walks R module f g)
    {S : ConvertM Unit → ConvertM Unit → Prop} {target : SymbolId}
    (bindGet : ∀ {p q : Run → ConvertM Unit},
      (∀ run other, run.symbols = other.symbols →
        (∀ id, P ((run.symbols.get? id).getD default).module) → S (p run) (q other)) →
      S (MonadState.get >>= p) (MonadState.get >>= q))
    (nothing : S (Pure.pure ()) (Pure.pure ()))
    (bind : ∀ {α : Type} {x y : ConvertM α} {p q : α → ConvertM Unit}, R α x y →
      (∀ a, S (p a) (q a)) → S (x >>= p) (y >>= q))
    (canonical : ∀ id, R _ (liftM (RunM.canonical id)) (liftM (RunM.canonical id)))
    (document : ∀ module, P module →
      R _ (liftM (RunM.document module)) (liftM (RunM.document module)))
    (store : ∀ {x y : ConvertM Value}, R Value x y →
      S (storeConverted target x) (storeConverted target y)) :
    S (FlatBundle.convertDeclaration f target) (FlatBundle.convertDeclaration g target) := by
  refine bind (canonical target) fun identity => bindGet fun run other same placed => ?_
  rw [← same]
  let declaration := (run.symbols.get? identity.declaration).getD default
  have inside : P declaration.module := placed identity.declaration
  by_cases reserved : isReservedName declaration.name = true
  · simp only [declaration, reserved, if_true]
    exact nothing
  simp only [declaration, reserved]
  refine bind (document declaration.module inside) fun found => ?_
  cases found with
  | none => exact nothing
  | some found =>
      cases declared : found.get? declaration.name with
      | none =>
          simp only [declaration, declared]
          exact nothing
      | some value =>
          simp only [declaration, declared]
          exact store ((h declaration.module inside).value value)

end FlatBundle
