/-
  FlatBundle.Proofs.Bundling.Consistency
  ──────────────────────────────────────
  **THE SYMBOLS OF A RUN ARE CONSISTENT AT EVERY MOMENT.**

  Resolving the exports of a module makes links long before the module is left, and enters
  other modules in between, which make symbols of this one.  At each of these moments the
  table is consistent.  The proof reads the history backwards: at the end no module is in
  progress and the run is sound, and no step makes links agree that did not agree before
  (`Step.linked_of_apply`), nor does it undo a link (`Run.KeepsDeclared.of_accrues`).

  So all that has to be followed forwards are turns (`Run.Turn.keepsDeclared`), from one
  moment at which no module is in progress to the next one.
-/
import FlatBundle.Proofs.Bundling.Identities
import FlatBundle.Proofs.Export.Declared
import FlatBundle.Proofs.Symbol.Consistency

namespace FlatBundle

variable {host : Host} {root : String} {exported : List SymbolId} {sources : Sources}

/-! ## §1. Consistent runs -/

/-- The symbols of a run are consistent, and what a module declares is no alias. -/
structure Run.Consistent (sources : Sources) (run : Run) : Prop where
  symbols : run.symbols.Consistent
  declared : run.KeepsDeclared sources

/-- A table with the same names and links links no declared name either. -/
theorem Run.KeepsDeclared.of_same_links {run later : Run} (h : run.KeepsDeclared sources)
    (same : run.symbols.SameLinks later.symbols) : later.KeepsDeclared sources :=
  h.grows same.grows same.exports

/-! What is stored for a symbol changes neither its name nor a link. -/

theorem Step.sameLinks_settle (id : SymbolId) (run : Run) :
    run.symbols.SameLinks ((Step.settle id).apply run).symbols :=
  SymbolTable.SameLinks.modify run.symbols id (fun _ => rfl) fun _ => rfl

theorem Step.sameLinks_mark (id : SymbolId) (run : Run) :
    run.symbols.SameLinks ((Step.mark id).apply run).symbols :=
  SymbolTable.SameLinks.modify run.symbols id (fun _ => rfl) fun _ => rfl

theorem Step.sameLinks_store (id : SymbolId) (value : Value) (run : Run) :
    run.symbols.SameLinks ((Step.store id value).apply run).symbols :=
  SymbolTable.SameLinks.modify run.symbols id (fun _ => rfl) fun _ => rfl

/-! ## §2. Forwards, from one idle moment to the next -/

/-- **A turn links no declared name.** -/
theorem Run.Turn.keepsDeclared {run : Run} {steps : List Step} (h : run.Turn exported steps)
    (steady : run.Steady host root exported) (declared : run.KeepsDeclared (host.sources root)) :
    (run.after steps).KeepsDeclared (host.sources root) := by
  cases h with
  | @visit module _ performs _ =>
      rw [← performs.after]
      exact declares_exportAll steady.sound declared module
  | document module => exact declared
  | @symbolOf module _ name =>
      exact declared.grows (SymbolTable.Extends.symbolOf run.symbols module name).grows
        (run.symbols.exports_symbolOf module name)
  | roots => exact declared
  | settle _ id => exact declared.of_same_links (Step.sameLinks_settle id run)
  | answer => exact declared
  | mark id => exact declared.of_same_links (Step.sameLinks_mark id run)
  | convert => exact declared
  | store id value => exact declared.of_same_links (Step.sameLinks_store id value run)

theorem Run.Turns.keepsDeclared {run : Run} {steps : List Step} (h : run.Turns exported steps)
    (steady : run.Steady host root exported) (declared : run.KeepsDeclared (host.sources root)) :
    (run.after steps).KeepsDeclared (host.sources root) := by
  induction h with
  | nil run => exact declared
  | cons turn _ ih =>
      rw [Run.after_append]
      exact ih (turn.steady steady).1 (turn.keepsDeclared steady declared)

/-! ## §3. Backwards, through all moments -/

/-- Links that agree after a step agreed before it. -/
theorem Step.linked_of_apply (step : Step) {run : Run}
    (linked : (step.apply run).symbols.Linked) : run.symbols.Linked := by
  cases step with
  | document module => exact linked
  | symbolOf module name => exact SymbolTable.Linked.of_symbolOf linked
  | link exported newName => exact SymbolTable.Linked.of_link linked
  | enter | entry | leave | answer | roots | convert => exact linked
  | settle id => exact (sameLinks_settle id run).symm.linked linked
  | mark id => exact (sameLinks_mark id run).symm.linked linked
  | store id value => exact (sameLinks_store id value run).symm.linked linked

theorem Run.linked_of_after {run : Run} {steps : List Step}
    (linked : (run.after steps).symbols.Linked) : run.symbols.Linked := by
  induction steps generalizing run with
  | nil => exact linked
  | cons step rest ih => exact step.linked_of_apply (ih linked)

/-- **A run that ends well was consistent at every moment.** -/
theorem Run.consistent_of_after {run : Run} {first steps : List Step} (part : first <+: steps)
    (linked : (run.after steps).symbols.Linked)
    (declared : (run.after steps).KeepsDeclared sources) :
    (run.after first).Consistent sources := by
  obtain ⟨rest, rfl⟩ := part
  rw [Run.after_append] at linked declared
  exact ⟨(Run.linked_of_after linked).consistent,
    declared.of_accrues ((run.after first).accrues_after rest).symbols⟩

/-! ## §4. Bundling -/

theorem Run.BundlesIn.keepsDeclared {steps : List Step}
    (h : Run.BundlesIn host root exported steps) :
    ((Run.start host root).after steps).KeepsDeclared (host.sources root) :=
  h.turns.keepsDeclared (Run.steady_start host root exported)
    (Run.keepsDeclared_start (host.sources root) host root)

/-- All histories that lead to what bundling leads to, apart from the log, end with links that
agree and declared names that are not linked. -/
theorem linked_and_keepsDeclared_of_unlogged {importAs : String} {modules : List String}
    {steps : List Step} (same : ((Run.start host root).after steps).unlogged
      = (bundleAfter modules root importAs (Run.start host root)).2.unlogged) :
    ((Run.start host root).after steps).symbols.Linked
      ∧ ((Run.start host root).after steps).KeepsDeclared (host.sources root) := by
  have h := bundlesIn_bundlingHistory host root importAs modules
  rw [(performs_bundlingHistory host root importAs modules).after] at same
  have symbols : ((Run.start host root).after steps).symbols = ((Run.start host root).after
      (bundlingHistory host root importAs modules)).symbols :=
    congrArg (fun run => run.symbols) same
  rw [Run.KeepsDeclared, symbols]
  exact ⟨(h.steady List.prefix_rfl h.idle).1.sound.linked, h.keepsDeclared⟩

/-- What is stored as the exports of a module at some moment is stored at all later ones, and
these are symbols of the module, each once. -/
theorem Run.BundlesIn.lists {steps first second : List Step}
    (h : Run.BundlesIn host root exported steps) (part : first <+: second)
    (part' : second <+: steps) {module : String} {ids : List SymbolId}
    (stored : ((Run.start host root).after first).resolved.get? module = some ids) :
    ((Run.start host root).after second).resolved.get? module = some ids
      ∧ ids.Nodup
      ∧ ∀ id ∈ ids, ((Run.start host root).after steps).symbols.BelongsTo module id := by
  refine ⟨h.orderly.resolved_stays part part' stored, ?_⟩
  have atEnd := h.orderly.resolved_stays (part.trans part') List.prefix_rfl stored
  exact (h.steady List.prefix_rfl h.idle).1.sound.lists module ids atEnd

/-- What a module exports at a moment at which no module is in progress: its own symbols,
each once. -/
theorem Run.Steady.exportAll {run : Run} (steady : run.Steady host root exported)
    (module : String) :
    RunM.Ensures (exportAll module) run fun ids later =>
      ids.Nodup ∧ ∀ id ∈ ids, later.symbols.BelongsTo module id :=
  (ensures_exportAll steady.sound module).mono fun _ _ outcome =>
    outcome.sound.lists _ _ (outcome.resolved_of_idle steady.idle)

/-- **The symbols of a table are consistent, whatever is asked and linked**, and so they
are at every moment of bundling a root of any library, after the exports of any modules have
been asked for: in the middle of resolving a module, while values are converted and while
private symbols are named.  What the table says at one moment it says at all later ones, and
what a module declares is an alias at none of them.  This holds of the moments that the run
has noted, and of those of any other history that leads to the same store, symbols and
exports.

The exports of a module are symbols of that module, each once.  They are stored when the
module is left, and never changed.  A module that is met while it is in progress has none at
that place; it has been left, at the latest, when no module is in progress. -/
theorem symbols_consistent :
    (∀ table later, SymbolTable.Calls SymbolTable.empty table → table.Calls later →
        table.Consistent ∧ table.Keeps later)
      ∧ ∀ (host : Host) (root importAs : String) (modules : List String),
        (∀ steps, ((Run.start host root).after steps).unlogged
              = (bundleAfter modules root importAs (Run.start host root)).2.unlogged →
          (∀ first second, first <+: second → second <+: steps →
            ((Run.start host root).after first).Consistent (host.sources root)
              ∧ ((Run.start host root).after first).symbols.Keeps
                ((Run.start host root).after second).symbols)
          ∧ ∀ (walked : List SymbolId) allocator allocator' (named : SymbolTable),
            walked.foldlM nameSymbol (allocator, ((Run.start host root).after steps).symbols)
                = .ok (allocator', named) →
              Run.Consistent (host.sources root)
                  { (Run.start host root).after steps with symbols := named }
                ∧ ((Run.start host root).after steps).symbols.Keeps named)
        ∧ (bundleAfter modules root importAs (Run.start host root)).2
          = (Run.start host root).after (bundlingHistory host root importAs modules)
        ∧ (∀ first second, first <+: second →
            second <+: bundlingHistory host root importAs modules → ∀ module ids,
            ((Run.start host root).after first).resolved.get? module = some ids →
              ((Run.start host root).after second).resolved.get? module = some ids
                ∧ ids.Nodup
                ∧ ∀ id ∈ ids, (bundleAfter modules root importAs
                    (Run.start host root)).2.symbols.BelongsTo module id)
        ∧ (∀ first, first <+: bundlingHistory host root importAs modules →
            ((Run.start host root).after first).inProgress = [] →
            ∀ module, RunM.Ensures (exportAll module) ((Run.start host root).after first)
              fun ids later => ids.Nodup ∧ ∀ id ∈ ids, later.symbols.BelongsTo module id)
        ∧ ∀ module, RunM.Ensures (exportAll module) (exportModules modules (Run.start host root)).2
          fun ids later => ids.Nodup ∧ ∀ id ∈ ids, later.symbols.BelongsTo module id := by
  refine ⟨?_, fun host root importAs modules => ?_⟩
  · intro table later calls calls'
    exact ⟨(calls.linked SymbolTable.linked_empty).consistent, calls'.accrues.keeps⟩
  have h := bundlesIn_bundlingHistory host root importAs modules
  have performs := performs_bundlingHistory host root importAs modules
  refine ⟨fun steps same => ?_, performs.after, ?_, ?_, ?_⟩
  · obtain ⟨linked, declared⟩ := linked_and_keepsDeclared_of_unlogged same
    refine ⟨fun first second part part' => ⟨?_, ?_⟩, ?_⟩
    · exact Run.consistent_of_after (part.trans part') linked declared
    · obtain ⟨more, rfl⟩ := part
      rw [Run.after_append]
      exact (((Run.start host root).after first).accrues_after more).symbols.keeps
    · intro walked allocator allocator' named naming
      -- naming a symbol changes neither its name in the module nor a link
      have same := (SymbolTable.SameBut.foldlM_nameSymbol walked
        (SymbolTable.SameBut.refl ((Run.start host root).after steps).symbols) naming).sameLinks
      exact ⟨⟨(same.linked linked).consistent, declared.of_same_links same⟩, same.keeps⟩
  · intro first second part part' module ids stored
    rw [performs.after]
    exact h.lists part part' stored
  · exact fun first part idle module => (h.steady part idle).1.exportAll module
  -- the state in which the modules have been asked for is a moment too
  · obtain ⟨part, moment⟩ := exportModules_moment host root importAs modules
    have exporting : (exportModules modules (Run.start host root)).2.Exporting host root :=
      (Run.exporting_start host root).forM modules
    have idle := exporting.idle
    rw [moment] at idle ⊢
    exact fun module => (h.steady part idle).1.exportAll module

end FlatBundle
