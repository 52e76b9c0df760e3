/-
  FlatBundle.Proofs.Run.Identifiers
  ─────────────────────────────────
  **BY WHICH NAMES A RUN KNOWS MODULES.**

  A run tells modules apart by their names and by nothing else.  A name is an identifier
  of a run if a symbol belongs to it, if its exports are remembered, or if its document is.

    • a step makes the module that it is about an identifier, and no other
      (`Step.isIdentifier_apply_iff`); none is forgotten,
    • the host is asked on behalf of the identifiers inside of the bundle, once for each,
      in the order in which they are looked up (`Run.asksInOrder_after`).

  So where all identifiers are in normal form (`Run.Normal`), no two of them are one
  document, and no name is asked for twice (`Run.Normal.nodup_asked`).
-/
import FlatBundle.Proofs.Run.History
import Mathlib.Data.List.Nodup

namespace FlatBundle

variable {host : Host} {root : String}

/-! ## §1. Identifiers -/

/-- The run knows a module by this name. -/
inductive Run.IsIdentifier (run : Run) (module : String) : Prop where
  /-- A symbol belongs to it. -/
  | owner (id : SymbolId) (owned : run.symbols.BelongsTo module id)
  /-- Its exports are remembered. -/
  | exporting (known : module ∈ run.resolved.keys)
  /-- Its document is remembered. -/
  | document (known : module ∈ run.store.cache.keys)

/-- All modules are known by names in normal form. -/
def Run.Normal (run : Run) : Prop :=
  ∀ module, run.IsIdentifier module → ModulePath.IsNormal module

theorem Run.normal_start (host : Host) (root : String) : (Run.start host root).Normal := by
  intro module known
  cases known with
  | owner id owned =>
      obtain ⟨name, hk⟩ := owned
      exact absurd (SymbolTable.lt_size_of_key? hk) (Nat.not_lt_zero id)
  | exporting known => cases known
  | document known => cases known

/-- The module of any symbol is in normal form; where there is none, it is the empty name,
which is outside of the bundle. -/
theorem Run.Normal.isNormal_module {run : Run} (normal : run.Normal) (id : SymbolId) :
    ModulePath.IsNormal ((run.symbols.get? id).getD default).module := by
  cases found : run.symbols.get? id with
  | none =>
      intro inside
      cases inside
  | some symbol => exact normal _ (.owner id ⟨symbol.name, SymbolTable.key?_of_get? found⟩)

/-! ## §2. Steps -/

/-- The module that a step makes an identifier. -/
def Step.module? : Step → Option String
  | .document module => some module
  | .symbolOf module _ => some module
  | .leave module _ => some module
  | _ => none

/-- What the store learns from a look-up: nothing, or the answer for a new module. -/
theorem Store.get_cases (store : Store) (module : String) :
    (module ∈ store.cache.keys ∧ (store.get module).2 = store)
      ∨ module ∉ store.cache.keys ∧ ∃ answer, (store.get module).2 = { store with
          cache := store.cache.insert module answer
          asked := if ModulePath.isRelative module then
            store.asked ++ [ModulePath.resolve module store.root] else store.asked } := by
  have mem : module ∈ store.cache.keys ↔ (store.cache.get? module).isSome :=
    (store.cache.contains_iff_mem_keys module).symm
  rw [mem]
  unfold Store.get
  cases known : store.cache.get? module with
  | some answer => exact Or.inl ⟨rfl, rfl⟩
  | none =>
      refine Or.inr ⟨by simp, ?_⟩
      by_cases inside : ModulePath.isRelative module = true
      · simp only [inside, if_true]
        exact ⟨_, rfl⟩
      · simp only [inside]
        exact ⟨none, rfl⟩

theorem Store.mem_keys_get_iff (store : Store) (module other : String) :
    other ∈ (store.get module).2.cache.keys ↔ other ∈ store.cache.keys ∨ module = other := by
  rcases store.get_cases module with ⟨known, same⟩ | ⟨new, answer, same⟩
  · rw [same]
    exact ⟨Or.inl, fun h => h.elim id fun e => e ▸ known⟩
  · rw [same, Entries.keys_insert, if_neg new]
    simp [eq_comm]

theorem SymbolTable.exists_belongsTo_symbolOf_iff (table : SymbolTable)
    (module name other : String) :
    (∃ id, (table.symbolOf module name).2.BelongsTo other id)
      ↔ (∃ id, table.BelongsTo other id) ∨ module = other := by
  constructor
  · rintro ⟨id, owned⟩
    exact owned.of_symbolOf.imp (fun old => ⟨id, old⟩) Eq.symm
  · rintro (⟨id, name', key⟩ | rfl)
    · exact ⟨id, name', (Accrues.symbolOf table module name).key? key⟩
    · exact ⟨_, name, table.key?_symbolOf module name⟩

theorem Run.isIdentifier_iff (run : Run) (module : String) :
    run.IsIdentifier module ↔ (∃ id, run.symbols.BelongsTo module id)
      ∨ module ∈ run.resolved.keys ∨ module ∈ run.store.cache.keys := by
  constructor
  · rintro (⟨id, owned⟩ | known | known)
    · exact Or.inl ⟨id, owned⟩
    · exact Or.inr (Or.inl known)
    · exact Or.inr (Or.inr known)
  · rintro (⟨id, owned⟩ | known | known)
    · exact .owner id owned
    · exact .exporting known
    · exact .document known

/-- **A step makes the module that it is about an identifier**, and no other, and forgets
none. -/
theorem Step.isIdentifier_apply_iff (step : Step) (run : Run) (module : String) :
    (step.apply run).IsIdentifier module
      ↔ run.IsIdentifier module ∨ step.module? = some module := by
  rw [Run.isIdentifier_iff, Run.isIdentifier_iff]
  cases step with
  | document looked =>
      have keys := run.store.mem_keys_get_iff looked module
      simp only [Step.apply, Step.module?, keys, Option.some.injEq, or_assoc]
  | symbolOf source name =>
      have owners := run.symbols.exists_belongsTo_symbolOf_iff source name module
      simp only [Step.apply, Step.module?, owners, Option.some.injEq]
      exact or_right_comm
  | leave left exported =>
      have keys : module ∈ (run.resolved.insert left exported).keys
          ↔ module ∈ run.resolved.keys ∨ left = module := by
        rw [Entries.keys_insert]
        split
        · next known => exact ⟨Or.inl, fun h => h.elim id fun e => e ▸ known⟩
        · simp [eq_comm]
      simp only [Step.apply, Step.module?, keys, Option.some.injEq]
      rw [@or_right_comm (module ∈ run.resolved.keys), ← or_assoc]
  -- the other steps leave the names of symbols, the exports and the documents alone
  | enter | roots | entry | answer | convert => simp [Step.apply, Step.module?]
  | link => simp [Step.apply, Step.module?, SymbolTable.BelongsTo, SymbolTable.key?_link]
  | settle =>
      simp [Step.apply, Step.module?, SymbolTable.BelongsTo, SymbolTable.settle,
        SymbolTable.key?_modify]
  | mark | store =>
      simp [Step.apply, Step.module?, SymbolTable.BelongsTo, SymbolTable.key?_modify]

/-- The identifiers of a run are those that it started with and the modules that its steps
were about. -/
theorem Run.isIdentifier_after_iff (run : Run) (steps : List Step) (module : String) :
    (run.after steps).IsIdentifier module
      ↔ run.IsIdentifier module ∨ ∃ step ∈ steps, step.module? = some module := by
  induction steps generalizing run with
  | nil => simp
  | cons step rest ih =>
      rw [Run.after_cons, ih, Step.isIdentifier_apply_iff, List.exists_mem_cons_iff, or_assoc]

/-- Steps about modules in normal form keep all identifiers in normal form. -/
theorem Run.Normal.after {run : Run} (normal : run.Normal) {steps : List Step}
    (about : ∀ step ∈ steps, ∀ module, step.module? = some module → ModulePath.IsNormal module) :
    (run.after steps).Normal := by
  intro module known
  rcases (run.isIdentifier_after_iff steps module).1 known with old | ⟨step, hstep, new⟩
  · exact normal module old
  · exact about step hstep module new

/-- It does not matter what the log says. -/
theorem Run.isIdentifier_unlogged_iff (run : Run) (module : String) :
    run.unlogged.IsIdentifier module ↔ run.IsIdentifier module :=
  (run.unlogged.isIdentifier_iff module).trans (run.isIdentifier_iff module).symm

theorem Run.Normal.of_unlogged {run later : Run} (normal : run.Normal)
    (same : later.unlogged = run.unlogged) : later.Normal := by
  intro module known
  rw [← later.isIdentifier_unlogged_iff, same, run.isIdentifier_unlogged_iff] at known
  exact normal module known

/-- What is in normal form in the end was so all the time. -/
theorem Run.Normal.of_after {run : Run} {steps first : List Step}
    (normal : (run.after steps).Normal) (part : first <+: steps) : (run.after first).Normal := by
  obtain ⟨rest, rfl⟩ := part
  intro module known
  rw [Run.after_append] at normal
  exact normal module ((Run.isIdentifier_after_iff _ rest module).2 (Or.inl known))

/-! ## §3. What the host is asked for -/

/-- The host has been asked for what the modules inside of the bundle stand for, in the
order in which they were looked up, once for each. -/
def Store.AsksInOrder (store : Store) : Prop :=
  store.asked = (store.cache.keys.filter ModulePath.isRelative).map
    (ModulePath.resolve · store.root)

theorem Store.AsksInOrder.get {store : Store} (h : store.AsksInOrder) (module : String) :
    (store.get module).2.AsksInOrder ∧ (store.get module).2.root = store.root := by
  rcases store.get_cases module with ⟨-, same⟩ | ⟨new, answer, same⟩
  · rw [same]
    exact ⟨h, rfl⟩
  · rw [same]
    refine ⟨?_, rfl⟩
    rw [Store.AsksInOrder, Entries.keys_insert, if_neg new, List.filter_append, List.map_append]
    by_cases inside : ModulePath.isRelative module = true
    · simpa [inside, Store.AsksInOrder] using h
    · simpa [inside, Store.AsksInOrder] using h

/-- **The host is asked in order**, at every moment of every history. -/
theorem Run.asksInOrder_after {run : Run} (h : run.store.AsksInOrder) (steps : List Step) :
    (run.after steps).store.AsksInOrder ∧ (run.after steps).store.root = run.store.root := by
  induction steps generalizing run with
  | nil => exact ⟨h, rfl⟩
  | cons step rest ih =>
      rw [Run.after_cons]
      cases step with
      | document module =>
          obtain ⟨asks, root_eq⟩ := h.get module
          obtain ⟨asks', root_eq'⟩ := @ih ((Step.document module).apply run) asks
          exact ⟨asks', root_eq'.trans root_eq⟩
      | _ => exact ih h

/-- Modules inside of the bundle that stand for one name are one module. -/
theorem Run.Normal.eq_of_resolve {run : Run} (normal : run.Normal) {first second : String}
    (known : run.IsIdentifier first) (known' : run.IsIdentifier second)
    (inside : ModulePath.isRelative first = true) (inside' : ModulePath.isRelative second = true)
    (same : ModulePath.resolve first root = ModulePath.resolve second root) : first = second :=
  ModulePath.resolve_injective (normal first known) inside (normal second known') inside' same

/-- **No name is asked for twice** where modules are known by names in normal form. -/
theorem Run.Normal.nodup_asked {run : Run} (normal : run.Normal) (h : run.store.AsksInOrder) :
    run.store.asked.Nodup := by
  rw [h]
  refine List.Nodup.map_on ?_ (run.store.cache.nodup.filter _)
  intro first hfirst second hsecond same
  obtain ⟨known, inside⟩ := List.mem_filter.1 hfirst
  obtain ⟨known', inside'⟩ := List.mem_filter.1 hsecond
  exact normal.eq_of_resolve (.document known) (.document known') inside inside' same

end FlatBundle
