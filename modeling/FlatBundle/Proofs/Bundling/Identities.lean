/-
  FlatBundle.Proofs.Bundling.Identities
  ─────────────────────────────────────
  **STORED IDENTITIES DO NOT GO STALE.**

  References are fixed to identities while the table is still growing: conversion enters
  new modules, creates symbols and adds links.  This is safe because every symbol belongs
  to a module that is completely resolved whenever no module is in progress.  So from an
  idle moment on, later links start at new symbols only: what an old symbol exports stays,
  and a new alias of an old symbol leads to new symbols and to no export of the root
  (`SymbolTable.Undisturbed`).

  The theorem follows the whole history of bundling, as the run has noted it
  (`bundlingHistory_keepsIdentities`), with exports of any modules asked for first, and on
  through the naming of private symbols.
-/
import FlatBundle.Proofs.Bundling.History

namespace FlatBundle

variable {host : Host} {root : String} {exported : List SymbolId}

/-! ## §1. What stays -/

/-- An identity that is stored is the one that the table gives now. -/
def SymbolTable.Fresh (table : SymbolTable) (exported : List SymbolId) : Prop :=
  ∀ id canonical, table.canonical? id = some canonical →
    canonical = table.canonicalize exported id

/-- The later run says of the symbols of the earlier one what that one says: what they
export and, from when the root is resolved, which of its exports are aliases of them and
which of these is found first. -/
structure Run.Undisturbed (root : String) (exported : List SymbolId) (run later : Run) :
    Prop where
  exports : ∀ id, id < run.symbols.size → later.symbols.exports id = run.symbols.exports id
  reaches : run.resolved.get? (rootModule root) = some exported →
    ∀ id, id < run.symbols.size → ∀ export_ ∈ exported,
      (later.symbols.ReachesAlias id export_ ↔ run.symbols.ReachesAlias id export_)
  rootExport : run.resolved.get? (rootModule root) = some exported →
    ∀ id, id < run.symbols.size →
      later.symbols.rootExport exported id = run.symbols.rootExport exported id

/-- The same links give the same identities. -/
theorem SymbolTable.SameLinks.fresh {table other : SymbolTable} (same : table.SameLinks other)
    (linked : table.Linked) (bounded : ∀ id ∈ exported, id < table.size)
    (canonical : ∀ id, other.canonical? id = table.canonical? id) (fresh : table.Fresh exported) :
    other.Fresh exported := by
  intro id stored hc
  rw [canonical] at hc
  rw [fresh id stored hc]
  exact (SymbolTable.canonicalize_grows same.grows linked (same.linked linked) bounded
    (SymbolTable.lt_size_of_canonical? hc)).symm

/-- Naming one symbol changes nothing but its private name. -/
theorem SymbolTable.SameBut.nameSymbol {table : SymbolTable}
    {state state' : PrivateName.Allocator × SymbolTable} (h : table.SameBut state.2) {id : SymbolId}
    (named : FlatBundle.nameSymbol state id = .ok state') : table.SameBut state'.2 := by
  obtain ⟨allocator, here⟩ := state
  cases hc : here.canonical id with
  | error error =>
      unfold FlatBundle.nameSymbol at named
      simp only [hc] at named
      cases named
  | ok canonical =>
      rw [SymbolTable.nameSymbol_eq allocator hc] at named
      cases Except.ok.inj named
      split
      · exact h.modify id _
      · exact h

/-- Naming symbols one after the other changes nothing but private names. -/
theorem SymbolTable.SameBut.foldlM_nameSymbol {table : SymbolTable} (walked : List SymbolId)
    {state state' : PrivateName.Allocator × SymbolTable} (h : table.SameBut state.2)
    (named : walked.foldlM FlatBundle.nameSymbol state = .ok state') : table.SameBut state'.2 := by
  induction walked generalizing state with
  | nil =>
      cases Except.ok.inj named
      exact h
  | cons id rest ih =>
      rw [List.foldlM_cons] at named
      cases first : FlatBundle.nameSymbol state id with
      | error error =>
          rw [first] at named
          cases named
      | ok middle =>
          rw [first] at named
          exact ih (h.nameSymbol first) named

/-! ## §2. Moments of a history -/

namespace Run.BundlesIn

variable {steps first second : List Step}

theorem fresh (h : Run.BundlesIn host root exported steps) (part : first <+: steps)
    (idle : ((Run.start host root).after first).inProgress = []) :
    ((Run.start host root).after first).symbols.Fresh exported :=
  fun id canonical hc => ((h.steady part idle).1.fresh id canonical hc).2

/-- From an idle moment to any later one, inside of a visit or not, nothing is moved. -/
theorem undisturbed (h : Run.BundlesIn host root exported steps) (part : first <+: second)
    (part' : second <+: steps) (idle : ((Run.start host root).after first).inProgress = []) :
    Run.Undisturbed root exported ((Run.start host root).after first)
      ((Run.start host root).after second) := by
  obtain ⟨steady, passes⟩ := h.steady (part.trans part') idle
  obtain ⟨steady', -⟩ := h.steady List.prefix_rfl h.idle
  obtain ⟨more, rfl⟩ := part
  obtain ⟨rest, rfl⟩ := part'
  -- the later run stands between the idle moment and the end
  have here := (((Run.start host root).after first).accrues_after more).symbols
  have there := (((Run.start host root).after (first ++ more)).accrues_after rest).symbols
  rw [← Run.after_append] at here there
  have grows := here.grows_between there passes.grows
  have aliases_ := here.aliases_between there passes.grows steady.sound.linked steady'.sound.linked
  have old : ((Run.start host root).after first).resolved.get? (rootModule root) = some exported →
      ∀ export_ ∈ exported, export_ < ((Run.start host root).after first).symbols.size := by
    intro known export_ hexport
    obtain ⟨name, key⟩ := (steady.sound.lists _ _ known).2 export_ hexport
    exact SymbolTable.lt_size_of_key? key
  refine ⟨grows.exports, ?_, ?_⟩
  · intro known id _ export_ hexport
    exact aliases_.reachesAlias_iff (old known export_ hexport)
  · intro known id hid
    exact aliases_.rootExport (old known) hid

/-- Private names are no part of an identity. -/
theorem fresh_nameSymbol (h : Run.BundlesIn host root exported steps) {walked : List SymbolId}
    {allocator allocator' : PrivateName.Allocator} {named : SymbolTable}
    (naming : walked.foldlM nameSymbol
      (allocator, ((Run.start host root).after steps).symbols) = .ok (allocator', named)) :
    named.Fresh exported := by
  have same : ((Run.start host root).after steps).symbols.SameBut named :=
    SymbolTable.SameBut.foldlM_nameSymbol walked
      (SymbolTable.SameBut.refl ((Run.start host root).after steps).symbols) naming
  obtain ⟨steady, -⟩ := h.steady List.prefix_rfl h.idle
  exact same.sameLinks.fresh steady.sound.linked (steady.bounded h.roots) same.canonical?
    (h.fresh List.prefix_rfl h.idle)

end Run.BundlesIn

/-! ## §3. The theorem -/

/-- **No identity that is stored while a root is bundled goes stale**, in any library and
after the exports of any modules have been asked for.  At every moment of the run at which no
module is being resolved, and while private symbols are named, a stored identity is the one
that the table gives now; and from such a moment on no step, not even in the middle of
resolving a module, changes what a symbol that was there exports or which exports of the root
it leads to.

The moments are those that the run has noted, from its start to its end.  Among them are
those at which the exports that were asked for have been given; no module is being resolved
then. -/
theorem bundlingHistory_keepsIdentities (host : Host) (root importAs : String)
    (modules : List String) :
    (bundleAfter modules root importAs (Run.start host root)).2
        = (Run.start host root).after (bundlingHistory host root importAs modules)
      ∧ (exportModules modules (Run.start host root)).2.history
        <+: bundlingHistory host root importAs modules
      ∧ (exportModules modules (Run.start host root)).2 = (Run.start host root).after
        (exportModules modules (Run.start host root)).2.history
      ∧ (∀ first module, first ++ [.answer module] <+: bundlingHistory host root importAs modules →
          ((Run.start host root).after first).inProgress = [])
      ∧ (bundleAfter modules root importAs (Run.start host root)).2.resolved.get? (rootModule root)
        = some (rootExportsAfter host root modules)
      ∧ (bundleAfter modules root importAs (Run.start host root)).2.rootExports
        = rootExportsAfter host root modules
      ∧ (∀ first, first <+: bundlingHistory host root importAs modules →
          ((Run.start host root).after first).inProgress = [] →
          ((Run.start host root).after first).symbols.Fresh (rootExportsAfter host root modules))
      ∧ (∀ (walked : List SymbolId) allocator allocator' (named : SymbolTable),
          walked.foldlM nameSymbol
              (allocator, (bundleAfter modules root importAs (Run.start host root)).2.symbols)
            = .ok (allocator', named) → named.Fresh (rootExportsAfter host root modules))
      ∧ ∀ first second, first <+: second → second <+: bundlingHistory host root importAs modules →
          ((Run.start host root).after first).inProgress = [] →
          Run.Undisturbed root (rootExportsAfter host root modules)
            ((Run.start host root).after first) ((Run.start host root).after second) := by
  have h := bundlesIn_bundlingHistory host root importAs modules
  obtain ⟨part, moment⟩ := exportModules_moment host root importAs modules
  rw [(performs_bundlingHistory host root importAs modules).after]
  exact ⟨rfl, part, moment, h.orderly.answers, h.known, h.roots, fun first => h.fresh,
    fun walked allocator allocator' named => h.fresh_nameSymbol,
    fun first second => h.undisturbed⟩

end FlatBundle
