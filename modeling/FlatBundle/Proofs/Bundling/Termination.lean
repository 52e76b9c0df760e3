/-
  FlatBundle.Proofs.Bundling.Termination
  ──────────────────────────────────────
  **BUNDLING ENDS BY ITSELF, AND DOES NOTHING TWICE.**

  Modules may re-export from each other and from themselves, and values may refer to each
  other, in any circles.  Bundling ends all the same, for two reasons:

    • a module is entered once and a value is asked for once, so circles are cut where they
      close,
    • the modules with a document are those of the host, and the symbols with a value are
      entries of its documents, so what is not on a circle ends after so many levels.

  The levels that resolution and conversion allow for are reckoned from the host.  They are
  enough: no answer depends on what is put below the last level.
-/
import FlatBundle.Proofs.Bundling.Ledger
import FlatBundle.Proofs.Conversion.Nesting
import FlatBundle.Proofs.Export.Nesting

namespace FlatBundle

variable {host : Host} {root : String} {exported : List SymbolId} {steps first : List Step}

/-- At an idle moment the exports of any module are resolved within the levels, and no
module is left in progress. -/
theorem Run.BundlesIn.exportAll_within (h : Run.BundlesIn host root exported steps)
    (part : first <+: steps) (idle : ((Run.start host root).after first).inProgress = [])
    (module : String) :
    (exportAll module ((Run.start host root).after first)).2.inProgress = []
      ∧ ∀ bottom, exportModule^[exportDepth host] bottom module ((Run.start host root).after first)
        = exportAll module ((Run.start host root).after first) := by
  obtain ⟨steady, -⟩ := h.steady part idle
  have outcome := ensures_exportAll steady.sound module
  refine ⟨outcome.stack.trans idle, fun bottom => ?_⟩
  have within := iterate_exportModule steady.sound.faithful module bottom
  rw [steady.sound.host_eq] at within
  exact within

/-- **Bundling ends for every library and every root**, after any exports have been
resolved, and does nothing twice.  In the history that the run has noted no module is
entered twice, no entry of a document is looked at twice, and no value is asked for,
converted or stored twice.  Whenever exports are given to whom has asked for them no module is in
progress; from any such moment the exports of any module are resolved, and none is in
progress then; and neither resolution nor conversion comes to the end of the levels that it
allows for. -/
theorem bundlingHistory_doesNothingTwice (host : Host) (root importAs : String)
    (modules : List String) :
    (bundleAfter modules root importAs (Run.start host root)).2
        = (Run.start host root).after (bundlingHistory host root importAs modules)
      ∧ (enteredModules (bundlingHistory host root importAs modules)).Nodup
      ∧ (walkedEntries (bundlingHistory host root importAs modules)).Nodup
      ∧ (markedSymbols (bundlingHistory host root importAs modules)).Nodup
      ∧ (convertedSymbols (bundlingHistory host root importAs modules)).Nodup
      ∧ (storedSymbols (bundlingHistory host root importAs modules)).Nodup
      ∧ (∀ first module, first ++ [.answer module] <+: bundlingHistory host root importAs modules →
          ((Run.start host root).after first).inProgress = [])
      ∧ (exportModules modules (Run.start host root)).2.inProgress = []
      ∧ (bundleAfter modules root importAs (Run.start host root)).2.inProgress = []
      ∧ (exportModules modules (Run.start host root)).2.history
        <+: bundlingHistory host root importAs modules
      ∧ (exportModules modules (Run.start host root)).2 = (Run.start host root).after
        (exportModules modules (Run.start host root)).2.history
      ∧ (∀ first, first <+: bundlingHistory host root importAs modules →
          ((Run.start host root).after first).inProgress = [] →
          ∀ module, (exportAll module ((Run.start host root).after first)).2.inProgress = []
            ∧ ∀ bottom, exportModule^[exportDepth host] bottom module
                ((Run.start host root).after first)
              = exportAll module ((Run.start host root).after first))
      ∧ ∀ bottom, convertRootWithin bottom root (exportModules modules (Run.start host root)).2
          = convertRoot root (exportModules modules (Run.start host root)).2 := by
  have h := bundlesIn_bundlingHistory host root importAs modules
  have exporting : (exportModules modules (Run.start host root)).2.Exporting host root :=
    (Run.exporting_start host root).forM modules
  obtain ⟨part, moment⟩ := exportModules_moment host root importAs modules
  rw [(performs_bundlingHistory host root importAs modules).after]
  exact ⟨rfl, h.orderly.entered.nodup, nodup_walkedEntries host root importAs modules,
    h.orderly.marked.nodup, nodup_convertedSymbols host root importAs modules,
    nodup_storedSymbols host root importAs modules, h.orderly.answers, exporting.idle, h.idle,
    part, moment, fun first part idle => h.exportAll_within part idle,
    exporting.convertRootWithin_eq⟩

end FlatBundle
