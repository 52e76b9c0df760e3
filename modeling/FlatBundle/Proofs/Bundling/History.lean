/-
  FlatBundle.Proofs.Bundling.History
  ──────────────────────────────────
  **THE HISTORY OF BUNDLING A LIBRARY.**

  A bundler may be asked for the exports of some modules before it is asked for the bundle
  of a root (`bundleAfter`).  The run notes all of it in one history (`bundlingHistory`), which
  consists of turns in which nothing is done twice (`bundlesIn_bundlingHistory`): the exports
  of the modules are resolved and those of the root, they are settled, identities are stored
  for the symbols that there are, and then values are converted.  Naming and writing the
  bundle come after that; they make no step.
-/
import FlatBundle.Proofs.Bundling.Totality
import FlatBundle.Proofs.Conversion.History

namespace FlatBundle

variable {host : Host} {root : String} {exported roots : List SymbolId}

/-! ## §1. Phases -/

/-- Bundle a root module after the exports of some modules have been resolved. -/
def bundleAfter (modules : List String) (root importAs : String) : RunM (Bundling Bundle) := do
  exportModules modules
  bundleFrom root importAs

theorem bundleAfter_nil (root importAs : String) :
    bundleAfter [] root importAs = bundleFrom root importAs :=
  rfl

theorem proceeds_exportModules (modules : List String) :
    (exportModules modules).Proceeds exported roots := by
  refine (RunM.congruence_proceeds exported roots).forM modules (g := fun _ => Pure.pure ()) ?_
  intro module _
  exact (RunM.proceeds_askExports module).bind fun _ => RunM.proceeds_read fun _ => ()

theorem proceeds_convertExports :
    (convertExports exported).run.Proceeds exported exported := by
  refine (RunM.congruence_proceeds exported exported).convertM.forM exported
    (g := fun _ => Pure.pure ()) fun id _ => ?_
  exact ConvertM.proceeds_bind (RunM.proceeds_read Except.ok) fun run =>
    proceeds_convertNested (conversionDepth run) id

/-- Settling the symbols: the exports of the root are set, then identities are stored. -/
theorem exists_performs_settleSymbols (exported : List SymbolId) {run : Run}
    (idle : run.inProgress = []) :
    ∃ steps, (settleSymbols exported).Performs run (.roots exported :: steps)
      ∧ ((Step.roots exported).apply run).Proceeds exported steps := by
  let settleAll : RunM Unit := do
    (← get).symbols.ids.forM fun id => RunM.perform (.settle id)
  have proceeds : settleAll.Proceeds exported exported := by
    refine (RunM.proceeds_read fun run => run).bind fun run => ?_
    refine (RunM.congruence_proceeds exported exported).forM run.symbols.ids
      (g := fun _ => Pure.pure ()) fun id _ => ?_
    intro run _ set
    exact ⟨_, RunM.performs_perform (.settle id) run,
      .single (.settle set id) rfl rfl rfl rfl rfl rfl⟩
  obtain ⟨steps, performs, here⟩ := proceeds ((Step.roots exported).apply run) idle rfl
  exact ⟨steps, .bind (RunM.performs_perform (.roots exported) run) performs, here⟩

/-- Conversion once the exports of the root are resolved. -/
def convertFrom (exported : List SymbolId) : ConvertM (List SymbolId) := do
  settleSymbols exported
  convertExports exported
  return exported

theorem exists_performs_convertFrom {run : Run} (idle : run.inProgress = [])
    (bounded : ∀ id ∈ exported, id < run.symbols.size) :
    ∃ steps, (convertFrom exported).run.Performs run steps
      ∧ run.Turns exported steps ∧ run.Orderly steps
      ∧ (run.after steps).rootExports = exported := by
  obtain ⟨settled, performs, here⟩ := exists_performs_settleSymbols exported idle
  have set : run.Orderly [.roots exported] := Run.Orderly.single _ rfl rfl rfl rfl (Or.inl rfl)
  have rest : (do convertExports exported; return exported :
      ConvertM (List SymbolId)).run.Proceeds exported exported :=
    ConvertM.proceeds_bind proceeds_convertExports fun _ =>
      RunM.proceeds_read fun _ => Except.ok exported
  have ends := performs.after
  rw [Run.after_cons] at ends
  obtain ⟨converted, performs', there⟩ := rest (settleSymbols exported run).2
    (by rw [ends, here.orderly.restored]; exact idle)
    (by rw [ends, here.roots]; rfl)
  rw [ends] at there
  have both := here.append there
  refine ⟨.roots exported :: (settled ++ converted), ?_, ?_, ?_, ?_⟩
  · exact ConvertM.performs_liftBind performs performs'
  · exact .cons (.roots bounded) both.turns
  · exact set.append both.orderly
  · rw [Run.after_cons, both.roots]
    rfl

/-- Naming and writing the bundle only read what conversion has come to. -/
theorem performs_bundleFrom {run : Run} {importAs : String} {steps : List Step}
    (h : (convertRoot root).run.Performs run steps) :
    (bundleFrom root importAs).Performs run steps := by
  have reads : ∀ result run, (writeBundle importAs result).Performs run [] := by
    intro result run
    cases result with
    | ok exported => exact RunM.performs_read (fun run => run.symbols.toBundle exported importAs) run
    | error error => exact RunM.performs_read (fun _ => Except.error error) run
  have all := h.bind (reads _ _)
  rw [List.append_nil, ← bundleFrom_eq] at all
  exact all

/-! ## §2. The whole history -/

/-- A history of bundling the root, where `exported` are the exports of the root. -/
structure Run.BundlesIn (host : Host) (root : String) (exported : List SymbolId)
    (steps : List Step) : Prop where
  turns : (Run.start host root).Turns exported steps
  orderly : (Run.start host root).Orderly steps
  known : ((Run.start host root).after steps).resolved.get? (rootModule root) = some exported
  roots : ((Run.start host root).after steps).rootExports = exported

namespace Run.BundlesIn

variable {steps first : List Step}

/-- At an idle moment the run is steady, and passes to the end. -/
theorem steady (h : Run.BundlesIn host root exported steps) (part : first <+: steps)
    (idle : ((Run.start host root).after first).inProgress = []) :
    ((Run.start host root).after first).Steady host root exported
      ∧ ((Run.start host root).after first).Passes ((Run.start host root).after steps) :=
  h.turns.steady (Run.steady_start host root exported) part idle

/-- No module is in progress in the end. -/
theorem idle (h : Run.BundlesIn host root exported steps) :
    ((Run.start host root).after steps).inProgress = [] :=
  h.orderly.restored

end Run.BundlesIn

/-- The exports of the root, in a run in which those of some modules have been asked for. -/
def rootExportsAfter (host : Host) (root : String) (modules : List String) : List SymbolId :=
  (exportAll (rootModule root) (exportModules modules (Run.start host root)).2).1

/-- Bundling goes on where the modules have been asked for, in turns, and nothing is done
twice. -/
theorem exists_performs_bundleAfter (host : Host) (root importAs : String) (modules : List String) :
    ∃ first rest, (exportModules modules).Performs (Run.start host root) first
      ∧ (bundleAfter modules root importAs).Performs (Run.start host root) (first ++ rest)
      ∧ Run.BundlesIn host root (rootExportsAfter host root modules) (first ++ rest) := by
  let start := Run.start host root
  let before := (exportModules modules start).2
  let exported := rootExportsAfter host root modules
  have exporting : before.Exporting host root := (Run.exporting_start host root).forM modules
  obtain ⟨exporting', known⟩ := exporting.askExports (rootModule root)
  -- three parts: the modules, the root, and the conversion
  have resolving : (exportModules modules).Proceeds exported [] := proceeds_exportModules modules
  obtain ⟨first, performs, here⟩ := resolving start rfl rfl
  obtain ⟨second, performs', there, -⟩ :=
    RunM.exists_performs_askExports exported (rootModule root) exporting.idle
  have bounded : ∀ id ∈ exported, id < (askExports (rootModule root) before).2.symbols.size := by
    intro id hid
    obtain ⟨name, key⟩ := (exporting'.sound.lists _ _ known).2 id hid
    exact SymbolTable.lt_size_of_key? key
  obtain ⟨third, performs'', turns, orderly, roots⟩ :=
    exists_performs_convertFrom exporting'.idle bounded
  have all : (bundleAfter modules root importAs).Performs start (first ++ (second ++ third)) :=
    performs.bind (performs_bundleFrom
      (ConvertM.performs_liftBind (f := convertFrom) performs' performs''))
  have ends : before = start.after first := performs.after
  have ends' : (askExports (rootModule root) before).2 = (start.after first).after second :=
    ends ▸ performs'.after
  rw [ends'] at turns orderly roots known
  rw [ends] at there
  have whole : start.Turns exported (first ++ (second ++ third)) :=
    here.turns.append (there.turns.append turns)
  refine ⟨first, second ++ third, performs, all, whole,
    here.orderly.append (there.orderly.append orderly), ?_, ?_⟩
  -- what the root exports is known from when it is resolved
  · have idle : (start.after (first ++ second)).inProgress = [] := by
      rw [Run.after_append, there.orderly.restored, here.orderly.restored]
      rfl
    have part : first ++ second <+: first ++ (second ++ third) := ⟨third, by simp⟩
    have passes := (whole.steady (Run.steady_start host root exported) part idle).2
    rw [Run.after_append] at passes
    exact passes.keeps.resolved _ _ known
  · rw [Run.after_append, Run.after_append]
    exact roots

/-- The steps of bundling a root after the exports of some modules have been asked for, as
the run has noted them. -/
def bundlingHistory (host : Host) (root importAs : String) (modules : List String) : List Step :=
  (bundleAfter modules root importAs (Run.start host root)).2.history

/-- The history is what bundling performs. -/
theorem performs_bundlingHistory (host : Host) (root importAs : String) (modules : List String) :
    (bundleAfter modules root importAs).Performs (Run.start host root)
      (bundlingHistory host root importAs modules) := by
  obtain ⟨first, rest, -, performs, -⟩ := exists_performs_bundleAfter host root importAs modules
  have noted : bundlingHistory host root importAs modules = first ++ rest := performs.history
  rw [noted]
  exact performs

/-- **The history of bundling consists of turns, in which nothing is done twice.** -/
theorem bundlesIn_bundlingHistory (host : Host) (root importAs : String) (modules : List String) :
    Run.BundlesIn host root (rootExportsAfter host root modules)
      (bundlingHistory host root importAs modules) := by
  obtain ⟨first, rest, -, performs, h⟩ := exists_performs_bundleAfter host root importAs modules
  rw [(performs_bundlingHistory host root importAs modules).unique performs]
  exact h

/-- The run in which the modules have been asked for is a moment of the history. -/
theorem exportModules_moment (host : Host) (root importAs : String) (modules : List String) :
    (exportModules modules (Run.start host root)).2.history
        <+: bundlingHistory host root importAs modules
      ∧ (exportModules modules (Run.start host root)).2 = (Run.start host root).after
        (exportModules modules (Run.start host root)).2.history := by
  obtain ⟨first, rest, asked, performs, -⟩ := exists_performs_bundleAfter host root importAs modules
  have noted : (exportModules modules (Run.start host root)).2.history = first := asked.history
  rw [(performs_bundlingHistory host root importAs modules).unique performs, noted]
  exact ⟨List.prefix_append first rest, asked.after⟩

/-- The run at the end of conversion is the one at the end of the history. -/
theorem after_bundlingHistory_of_convertRoot {modules : List String} {run : Run}
    (hconvert : convertRoot root (exportModules modules (Run.start host root)).2
      = (.ok exported, run)) :
    (Run.start host root).after (bundlingHistory host root "" modules) = run := by
  have ends : (bundleAfter modules root "" (Run.start host root)).2 = run := by
    show (bundleFrom root "" (exportModules modules (Run.start host root)).2).2 = run
    rw [bundleFrom_of_convertRoot hconvert]
  exact (performs_bundlingHistory host root "" modules).after.symm.trans ends

end FlatBundle
