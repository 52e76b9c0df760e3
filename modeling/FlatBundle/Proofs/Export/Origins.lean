/-
  FlatBundle.Proofs.Export.Origins
  ────────────────────────────────
  **WHERE A NAME COMES FROM, READ OFF THE DOCUMENTS.**

  A module exports the names of its own entries and the names that its export
  declarations provide (`Sources.Exports`).  A name that comes from another module
  has an origin there (`Sources.Origin`):

    • an entry that is a reference to another module's symbol comes from there, and
      any other entry comes from nowhere else,
    • a name without an entry comes from where the first declaration that provides
      it takes it.

  A name `Resolves` to where its origins end.  No symbol table and no run is
  mentioned here.
-/
import FlatBundle.Proofs.Value.Rewrite
import Mathlib.Logic.Relation

namespace FlatBundle.Sources

variable {sources : Sources}

/-! ## §1. Names that a module exports -/

/-- The module exports the name. -/
inductive Exports (sources : Sources) : (module name : String) → Prop where
  /-- It has an entry for the name. -/
  | entry {module name : String} {document : Document} (found : sources module = some document)
      (declared : document.declares name = true) : Exports sources module name
  /-- It exports a chosen name of another module. -/
  | chosen {module : String} {document : Document} (found : sources module = some document)
      {declaration : ExportDeclaration} (mem : declaration ∈ document.declarations)
      {items : List ExportItem} (chosen : declaration.items = some items) {item : ExportItem}
      (hitem : item ∈ items) : Exports sources module item.exportedAs
  /-- It exports all that another module exports. -/
  | all {module name : String} {document : Document} (found : sources module = some document)
      {declaration : ExportDeclaration} (mem : declaration ∈ document.declarations)
      (all : declaration.items = none)
      (exports : Exports sources (ModulePath.resolve declaration.source module) name) :
      Exports sources module name

/-- A declaration of the module provides the name. -/
def Provides (sources : Sources) (module : String) (declaration : ExportDeclaration)
    (name : String) : Prop :=
  match declaration.items with
  | some items => ∃ item ∈ items, item.exportedAs = name
  | none => sources.Exports (ModulePath.resolve declaration.source module) name

/-- A module exports its own entries, and what its declarations provide. -/
theorem exports_iff {module name : String} {document : Document}
    (found : sources module = some document) :
    sources.Exports module name ↔ document.declares name = true
      ∨ ∃ declaration ∈ document.declarations, sources.Provides module declaration name := by
  constructor
  · intro h
    cases h with
    | entry found' declared =>
        rw [found] at found'
        obtain rfl := Option.some.inj found'
        exact Or.inl declared
    | @chosen _ _ found' declaration mem items chosen item hitem =>
        rw [found] at found'
        obtain rfl := Option.some.inj found'
        refine Or.inr ⟨declaration, mem, ?_⟩
        rw [Provides, chosen]
        exact ⟨item, hitem, rfl⟩
    | @all _ _ _ found' declaration mem all exports =>
        rw [found] at found'
        obtain rfl := Option.some.inj found'
        refine Or.inr ⟨declaration, mem, ?_⟩
        rw [Provides, all]
        exact exports
  · intro h
    rcases h with declared | ⟨declaration, mem, provides⟩
    · exact .entry found declared
    · unfold Provides at provides
      split at provides
      · next items chosen =>
          obtain ⟨item, hitem, rfl⟩ := provides
          exact .chosen found mem chosen hitem
      · next all => exact .all found mem all provides

/-- A module without a document exports nothing. -/
theorem not_exports {module name : String} (absent : sources module = none) :
    ¬ sources.Exports module name := by
  intro h
  cases h with
  | entry found _ => cases absent.symm.trans found
  | chosen found _ _ _ => cases absent.symm.trans found
  | all found _ _ _ => cases absent.symm.trans found

/-! ## §2. Origins -/

/-- Where a declaration of the module takes a name that it provides: the first of
several items under one name counts. -/
def Takes (sources : Sources) (module : String) (declaration : ExportDeclaration)
    (name : String) (origin : Target) : Prop :=
  match declaration.items with
  | some items => ∃ before item after, items = before ++ item :: after
      ∧ (∀ other ∈ before, other.exportedAs ≠ name) ∧ item.exportedAs = name
      ∧ origin = (ModulePath.resolve declaration.source module, item.name)
  | none => sources.Exports (ModulePath.resolve declaration.source module) name
      ∧ origin = (ModulePath.resolve declaration.source module, name)

/-- Where an entry of the module comes from, if it is a reference to the symbol of
another module. -/
def Refers (module : String) (value : Value) (origin : Target) : Prop :=
  ∃ specifier name arguments, value.reference? = some (.imported specifier name arguments)
    ∧ origin = (ModulePath.resolve specifier module, name)

/-- The name comes from another one: its entry refers to that, or there is no entry
and the first declaration that provides the name takes it from there. -/
def Origin (sources : Sources) (target origin : Target) : Prop :=
  ∃ document, sources target.1 = some document ∧
    match document.get? target.2 with
    | some value => Refers target.1 value origin
    | none => ∃ before declaration after,
        document.declarations = before ++ declaration :: after
        ∧ (∀ other ∈ before, ¬ sources.Provides target.1 other target.2)
        ∧ sources.Takes target.1 declaration target.2 origin

/-- The name resolves to where its origins end. -/
structure Resolves (sources : Sources) (target final : Target) : Prop where
  path : Relation.ReflTransGen sources.Origin target final
  ends : ∀ origin, ¬ sources.Origin final origin

theorem Takes.provides {module name : String} {declaration : ExportDeclaration} {origin : Target}
    (h : sources.Takes module declaration name origin) :
    sources.Provides module declaration name := by
  unfold Takes at h
  unfold Provides
  cases chosen : declaration.items with
  | some items =>
      rw [chosen] at h
      obtain ⟨before, item, after, rfl, -, same, -⟩ := h
      exact ⟨item, by simp, same⟩
  | none =>
      rw [chosen] at h
      exact h.1

/-- What is exported from a module is what is taken from there. -/
theorem Takes.fst_eq {module name : String} {declaration : ExportDeclaration} {origin : Target}
    (h : sources.Takes module declaration name origin) :
    origin.1 = ModulePath.resolve declaration.source module := by
  unfold Takes at h
  split at h
  · obtain ⟨_, _, _, -, -, -, rfl⟩ := h
    rfl
  · obtain ⟨-, rfl⟩ := h
    rfl

/-- Of two ways to cut a list at the first member with a property there is one. -/
theorem cut_unique {α : Type} {p : α → Prop} {before before' after after' : List α} {x x' : α}
    (same : before ++ x :: after = before' ++ x' :: after') (none : ∀ y ∈ before, ¬ p y)
    (none' : ∀ y ∈ before', ¬ p y) (hx : p x) (hx' : p x') : x = x' := by
  induction before generalizing before' with
  -- one of the heads is the first with the property, so the other is no later
  | nil =>
      cases before' with
      | nil => exact (List.cons.inj same).1
      | cons y rest =>
          rw [List.nil_append, List.cons_append] at same
          exact absurd ((List.cons.inj same).1 ▸ hx) (none' y List.mem_cons_self)
  | cons y rest ih =>
      cases before' with
      | nil =>
          rw [List.nil_append, List.cons_append] at same
          exact absurd ((List.cons.inj same).1 ▸ hx') (none y List.mem_cons_self)
      | cons y' rest' =>
          rw [List.cons_append, List.cons_append] at same
          exact ih (List.cons.inj same).2 (fun z hz => none z (List.mem_cons_of_mem _ hz))
            fun z hz => none' z (List.mem_cons_of_mem _ hz)

theorem Takes.unique {module name : String} {declaration : ExportDeclaration}
    {origin origin' : Target} (h : sources.Takes module declaration name origin)
    (h' : sources.Takes module declaration name origin') : origin = origin' := by
  unfold Takes at h h'
  cases chosen : declaration.items with
  | some items =>
      rw [chosen] at h h'
      obtain ⟨before, item, after, split, none, hitem, rfl⟩ := h
      obtain ⟨before', item', after', split', none', hitem', rfl⟩ := h'
      have same : item = item' := cut_unique (p := fun item => item.exportedAs = name)
        (split.symm.trans split') none none' hitem hitem'
      rw [same]
  | none =>
      rw [chosen] at h h'
      rw [h.2, h'.2]

/-- **A name has one origin.** -/
theorem Origin.unique {target origin origin' : Target} (h : sources.Origin target origin)
    (h' : sources.Origin target origin') : origin = origin' := by
  obtain ⟨document, found, how⟩ := h
  obtain ⟨document', found', how'⟩ := h'
  rw [found] at found'
  obtain rfl := Option.some.inj found'
  cases entry : document.get? target.2 with
  | some value =>
      rw [entry] at how how'
      obtain ⟨specifier, name, arguments, refers, rfl⟩ := how
      obtain ⟨specifier', name', arguments', refers', rfl⟩ := how'
      rw [refers] at refers'
      cases refers'
      rfl
  | none =>
      rw [entry] at how how'
      obtain ⟨before, declaration, after, split, none, takes⟩ := how
      obtain ⟨before', declaration', after', split', none', takes'⟩ := how'
      -- the first declaration that provides the name is the same in both
      have same : declaration = declaration' :=
        cut_unique (p := fun declaration => sources.Provides target.1 declaration target.2)
          (split.symm.trans split') none none' takes.provides takes'.provides
      subst same
      exact takes.unique takes'

/-- A name that comes from elsewhere is exported. -/
theorem Origin.exports {target origin : Target} (h : sources.Origin target origin) :
    sources.Exports target.1 target.2 := by
  obtain ⟨document, found, how⟩ := h
  rw [exports_iff found]
  cases entry : document.get? target.2 with
  | some value =>
      left
      show document.entries.contains target.2 = true
      rw [Entries.contains, show document.entries.get? target.2 = some value from entry]
      rfl
  | none =>
      rw [entry] at how
      obtain ⟨before, declaration, after, split, -, takes⟩ := how
      exact Or.inr ⟨declaration, by simp [split], takes.provides⟩

/-- **A name resolves to one place.** -/
theorem Resolves.unique {target final final' : Target} (h : sources.Resolves target final)
    (h' : sources.Resolves target final') : final = final' := by
  have functional : Relator.RightUnique sources.Origin := fun _ _ _ hb hc => hb.unique hc
  have total := Relation.ReflTransGen.total_of_right_unique functional h.path h'.path
  -- one path is part of the other, and cannot go on where the first one ends
  rcases total with path | path
  · rcases Relation.ReflTransGen.cases_head path with same | ⟨origin, step, -⟩
    · exact same
    · exact absurd step (h.ends origin)
  · rcases Relation.ReflTransGen.cases_head path with same | ⟨origin, step, -⟩
    · exact same.symm
    · exact absurd step (h'.ends origin)

/-! ## §3. The re-export graph -/

/-- The document of one module names the other, in an entry that is a reference to its
symbol or in an export declaration. -/
def Edge (sources : Sources) (module source : String) : Prop :=
  ∃ document, sources module = some document ∧
    ((∃ entry ∈ document.entries.toList, ∃ specifier name arguments,
        entry.2.reference? = some (.imported specifier name arguments)
        ∧ source = ModulePath.resolve specifier module)
      ∨ ∃ declaration ∈ document.declarations,
        source = ModulePath.resolve declaration.source module)

/-- No module re-exports from itself, directly or through others. -/
def Acyclic (sources : Sources) : Prop :=
  ∀ module, ¬ Relation.TransGen sources.Edge module module

theorem Acyclic.of_rank (rank : String → Nat)
    (lower : ∀ module source, sources.Edge module source → rank source < rank module) :
    sources.Acyclic := by
  have descends : ∀ module source, Relation.TransGen sources.Edge module source →
      rank source < rank module := by
    intro module source path
    induction path with
    | single edge => exact lower _ _ edge
    | tail _ edge ih =>
        have step := lower _ _ edge
        omega
  -- a cycle would descend to the rank that it starts from
  intro module cycle
  have less := descends module module cycle
  omega

theorem Origin.edge {target origin : Target} (h : sources.Origin target origin) :
    sources.Edge target.1 origin.1 := by
  obtain ⟨document, found, how⟩ := h
  refine ⟨document, found, ?_⟩
  cases entry : document.get? target.2 with
  | some value =>
      rw [entry] at how
      obtain ⟨specifier, name, arguments, refers, rfl⟩ := how
      exact Or.inl ⟨_, Pairs.mem_of_find?_eq_some entry, specifier, name, arguments, refers, rfl⟩
  | none =>
      rw [entry] at how
      obtain ⟨before, declaration, after, split, -, takes⟩ := how
      exact Or.inr ⟨declaration, by simp [split], takes.fst_eq⟩

end FlatBundle.Sources
