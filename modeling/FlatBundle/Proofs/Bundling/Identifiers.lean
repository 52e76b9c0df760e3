/-
  FlatBundle.Proofs.Bundling.Identifiers
  ──────────────────────────────────────
  **ONE DOCUMENT IS KNOWN BY ONE NAME.**

  A specifier is resolved twice: against the module that it stands in, which gives the name
  by which the run knows the module, and that name against the root, which gives the name
  that the host is asked for.  The first of these is in normal form, and modules in normal
  form are different documents.  It remains to see that no module is known by another name:

    • the root module is in normal form, unless its name is empty or made of dots,
    • resolving the exports of a module in normal form meets only such modules
      (`keepsNormal_exportNested`), and so does the walk over a value of one,
    • a value that conversion enters is a value of a module that has a symbol, so its
      module is in normal form as well (`keepsNormal_convertDeclaration`).
-/
import FlatBundle.Proofs.Bundling.History
import FlatBundle.Proofs.Run.Identifiers

namespace FlatBundle

variable {α β : Type}

/-! ## §1. Computations -/

/-- The computation makes no module known by a name that is not in normal form. -/
def RunM.KeepsNormal (x : RunM α) : Prop :=
  ∀ run : Run, run.Normal → (x run).2.Normal

namespace RunM

theorem congruence_keepsNormal : Congruence fun _ x _ => x.KeepsNormal where
  pure := fun _ _ normal => normal
  bindGet := fun keeps run normal => keeps run run rfl run normal
  bind := fun hx hf run normal => hf _ _ (hx run normal)

theorem KeepsNormal.bind {x : RunM α} {f : α → RunM β} (h : x.KeepsNormal)
    (h' : ∀ a, (f a).KeepsNormal) : (x >>= f).KeepsNormal :=
  congruence_keepsNormal.bind (y := x) (g := f) h h'

theorem keepsNormal_pure (a : α) : (Pure.pure a : RunM α).KeepsNormal :=
  fun _ normal => normal

theorem KeepsNormal.bindGet {f : Run → RunM β} (h : ∀ run, (f run).KeepsNormal) :
    (MonadState.get >>= f).KeepsNormal :=
  fun run normal => h run run normal

/-- One step, about a module in normal form or about none. -/
theorem KeepsNormal.step {x : RunM α} (step : Step) (performs : ∀ run, x.Performs run [step])
    (about : ∀ module, step.module? = some module → ModulePath.IsNormal module) :
    x.KeepsNormal := by
  intro run normal
  rw [(performs run).after]
  exact normal.after fun other hother => List.mem_singleton.1 hother ▸ about

/-- One step that is about no module. -/
theorem keepsNormal_perform (step : Step) (none : step.module? = none) :
    (perform step).KeepsNormal :=
  .step step (performs_perform step) fun module some => by rw [none] at some; cases some

theorem keepsNormal_document {module : String} (h : ModulePath.IsNormal module) :
    (document module).KeepsNormal :=
  .step _ (performs_document module) fun _ same => Option.some.inj same ▸ h

theorem keepsNormal_symbolOf {module : String} (h : ModulePath.IsNormal module) (name : String) :
    (symbolOf module name).KeepsNormal :=
  .step _ (performs_symbolOf module name) fun _ same => Option.some.inj same ▸ h

theorem keepsNormal_canonical (id : SymbolId) : (canonical id).KeepsNormal := by
  intro run normal
  obtain ⟨steps, performs, rfl | rfl⟩ := exists_performs_canonical id run
  · rw [performs.after]
    exact normal
  · rw [performs.after]
    exact keepsNormal_perform (.settle id) rfl run normal

end RunM

theorem ConvertM.keepsNormal_bind {x : ConvertM α} {f : α → ConvertM β} (h : x.run.KeepsNormal)
    (h' : ∀ a, (f a).run.KeepsNormal) : (x >>= f).run.KeepsNormal :=
  RunM.congruence_keepsNormal.convertM.bind (y := x) (g := f) h h'

theorem ConvertM.keepsNormal_lift {x : RunM α} (h : x.KeepsNormal) :
    (liftM x : ConvertM α).run.KeepsNormal :=
  RunM.congruence_keepsNormal.lift (y := x) h

/-- What comes next may count on the modules that are known. -/
theorem ConvertM.keepsNormal_bindGet {f : Run → ConvertM β}
    (h : ∀ run, run.Normal → (f run).run.KeepsNormal) : (MonadState.get >>= f).run.KeepsNormal :=
  fun run normal => h run normal run normal

/-! ## §2. Exports -/

theorem keepsNormal_exportModule {resolveModule : String → RunM (List SymbolId)}
    (resolve : ∀ module, ModulePath.IsNormal module → (resolveModule module).KeepsNormal)
    {module : String} (h : ModulePath.IsNormal module) :
    (exportModule resolveModule module).KeepsNormal := by
  refine .bindGet fun run => ?_
  cases run.resolved.get? module with
  | some result => exact RunM.keepsNormal_pure result
  | none =>
      refine .bindGet fun run => ?_
      split
      · exact RunM.keepsNormal_pure []
      refine (RunM.keepsNormal_perform (.enter module) rfl).bind fun _ => ?_
      refine (RunM.keepsNormal_document h).bind fun document => ?_
      refine RunM.KeepsNormal.bind ?_ fun result => ?_
      -- the document names modules by specifiers, which are resolved to normal forms
      · exact RunM.congruence_keepsNormal.exportDocument (RunM.keepsNormal_symbolOf h)
          (fun specifier => RunM.keepsNormal_symbolOf (ModulePath.isNormal_resolve specifier module))
          (RunM.congruence_keepsNormal.exportAs (RunM.keepsNormal_symbolOf h)
            fun exported newName => RunM.keepsNormal_perform (.link exported newName) rfl)
          (g := resolveModule)
          (fun specifier => resolve _ (ModulePath.isNormal_resolve specifier module))
          (fun name => RunM.keepsNormal_perform (.entry module name) rfl) document
      · refine RunM.KeepsNormal.bind ?_ fun _ => RunM.keepsNormal_pure result
        exact .step _ (RunM.performs_perform (.leave module result))
          fun _ same => Option.some.inj same ▸ h

theorem keepsNormal_exportNested (depth : Nat) {module : String}
    (h : ModulePath.IsNormal module) : (exportNested depth module).KeepsNormal := by
  induction depth generalizing module with
  | zero => exact RunM.keepsNormal_pure []
  | succ depth ih => exact keepsNormal_exportModule (fun _ => ih) h

/-- **Resolving the exports of a module in normal form** meets modules in normal form. -/
theorem keepsNormal_exportAll {module : String} (h : ModulePath.IsNormal module) :
    (exportAll module).KeepsNormal :=
  .bindGet fun _ => keepsNormal_exportNested _ h

theorem keepsNormal_askExports {module : String} (h : ModulePath.IsNormal module) :
    (askExports module).KeepsNormal :=
  RunM.congruence_keepsNormal.askExports (keepsNormal_exportAll h)
    (RunM.keepsNormal_perform (.answer module) rfl)

theorem keepsNormal_exportModules {modules : List String}
    (normal : ∀ module ∈ modules, ModulePath.IsNormal module) :
    (exportModules modules).KeepsNormal :=
  RunM.congruence_keepsNormal.forM modules (g := fun _ => Pure.pure ()) fun module hmodule =>
    (keepsNormal_askExports (normal module hmodule)).bind fun _ => RunM.keepsNormal_pure ()

/-! ## §3. Values -/

/-- The walk over a value of a module in normal form names symbols of such modules. -/
theorem walks_keepsNormal {f : SymbolId → ConvertM Unit}
    (symbols : ∀ id, (f id).run.KeepsNormal) {module : String} (h : ModulePath.IsNormal module) :
    ConvertM.Walks (fun _ x _ => x.run.KeepsNormal) module f f :=
  RunM.congruence_keepsNormal.walks (P := ModulePath.IsNormal)
    (fun specifier => ModulePath.isNormal_resolve specifier module)
    (fun _ => RunM.keepsNormal_document) (fun _ => keepsNormal_askExports)
    (fun _ name placed => RunM.keepsNormal_symbolOf placed name) RunM.keepsNormal_canonical
    (fun _ _ normal => normal) symbols h

/-- **The value of a declaration is a value of a module in normal form**, as the module has
a symbol. -/
theorem keepsNormal_convertDeclaration {f : SymbolId → ConvertM Unit}
    (symbols : ∀ id, (f id).run.KeepsNormal) (target : SymbolId) :
    (convertDeclaration f target).run.KeepsNormal := by
  refine ConvertM.Walks.convertDeclaration (S := fun x _ => x.run.KeepsNormal)
    (fun module placed => walks_keepsNormal symbols placed) ?_ (fun _ normal => normal)
    ConvertM.keepsNormal_bind ?_ ?_ ?_
  · exact fun keeps => ConvertM.keepsNormal_bindGet fun run normal =>
      keeps run run rfl normal.isNormal_module
  · exact fun id => ConvertM.keepsNormal_lift (RunM.keepsNormal_canonical id)
  · exact fun module placed => ConvertM.keepsNormal_lift (RunM.keepsNormal_document placed)
  · exact fun {_ y} => RunM.congruence_keepsNormal.convertM.storeConverted (y := y)
      (ConvertM.keepsNormal_lift (RunM.keepsNormal_perform (.convert target) rfl))
      fun value => ConvertM.keepsNormal_lift (RunM.keepsNormal_perform (.store target value) rfl)

theorem keepsNormal_convertNested (depth : Nat) (id : SymbolId) :
    (convertNested depth id).run.KeepsNormal := by
  have nothing : (Pure.pure () : ConvertM Unit).run.KeepsNormal := fun _ normal => normal
  induction depth generalizing id with
  | zero => exact nothing
  | succ depth ih =>
      refine ConvertM.keepsNormal_bind
        (ConvertM.keepsNormal_lift (RunM.keepsNormal_canonical id)) fun canonical => ?_
      refine ConvertM.keepsNormal_bindGet fun run _ => ?_
      split
      · exact nothing
      split
      · exact nothing
      refine ConvertM.keepsNormal_bind (ConvertM.keepsNormal_lift ?_) fun _ =>
        keepsNormal_convertDeclaration ih canonical.symbol
      exact RunM.keepsNormal_perform (.mark canonical.symbol) rfl

/-! ## §4. The root -/

theorem keepsNormal_settleSymbols (exported : List SymbolId) :
    (settleSymbols exported).KeepsNormal := by
  refine (RunM.keepsNormal_perform (.roots exported) rfl).bind fun _ => ?_
  refine .bindGet fun run => ?_
  exact RunM.congruence_keepsNormal.forM run.symbols.ids (g := fun _ => Pure.pure ()) fun id _ =>
    RunM.keepsNormal_perform (.settle id) rfl

theorem keepsNormal_convertExports (exported : List SymbolId) :
    (convertExports exported).run.KeepsNormal :=
  RunM.congruence_keepsNormal.convertM.forM exported (g := fun _ => Pure.pure ()) fun id _ =>
    ConvertM.keepsNormal_bindGet fun run _ => keepsNormal_convertNested (conversionDepth run) id

/-- The last piece of a root names something, unless it is no name of a document. -/
theorem isSegment_basename {root : String} (named : ModulePath.basename root ∉ ["", ".", ".."]) :
    ModulePath.IsSegment (ModulePath.basename root).toList := by
  have other : ∀ name ∈ ["", ".", ".."], (ModulePath.basename root).toList ≠ name.toList :=
    fun name hname same => named (String.toList_injective same ▸ hname)
  exact ⟨other "" (by simp), other "." (by simp), other ".." (by simp),
    ModulePath.no_slash_basename root⟩

/-- The root module is in normal form, unless its name is no name of a document. -/
theorem isNormal_rootModule {root : String} (named : ModulePath.basename root ∉ ["", ".", ".."]) :
    ModulePath.IsNormal (rootModule root) :=
  ModulePath.isNormal_slash (isSegment_basename named)

/-- **Bundling a root makes only modules in normal form known**, after the exports of such
modules have been resolved. -/
theorem keepsNormal_bundleAfter {root : String}
    (named : ModulePath.basename root ∉ ["", ".", ".."]) (importAs : String)
    {modules : List String} (normal : ∀ module ∈ modules, ModulePath.IsNormal module) :
    (bundleAfter modules root importAs).KeepsNormal := by
  refine (keepsNormal_exportModules normal).bind fun _ => ?_
  rw [bundleFrom_eq]
  have converts : (convertRoot root).run.KeepsNormal :=
    ConvertM.keepsNormal_bind
      (ConvertM.keepsNormal_lift (keepsNormal_askExports (isNormal_rootModule named)))
      fun exported => ConvertM.keepsNormal_bind
        (ConvertM.keepsNormal_lift (keepsNormal_settleSymbols exported)) fun _ =>
          ConvertM.keepsNormal_bind (keepsNormal_convertExports exported) fun _ _ normal => normal
  refine converts.bind fun result => ?_
  -- writing the bundle only reads
  cases result with
  | ok exported => exact fun _ normal => normal
  | error error => exact fun _ normal => normal

/-! ## §5. The theorem -/

/-- Every document is known by one name: names of modules are in normal form, no two modules
inside of the bundle are one document for the host, and the host is asked once for each of
them that is looked up, and for nothing else. -/
structure Run.KnowsByOneName (root : String) (run : Run) : Prop where
  normal : ∀ module, run.IsIdentifier module → ModulePath.IsNormal module
  apart : ∀ first second, run.IsIdentifier first → run.IsIdentifier second →
    ModulePath.isRelative first = true → ModulePath.isRelative second = true →
    ModulePath.resolve first root = ModulePath.resolve second root → first = second
  asked : run.store.asked = (run.store.cache.keys.filter ModulePath.isRelative).map
    (ModulePath.resolve · root)
  once : run.store.asked.Nodup

/-- A run from the start, at a moment at which names are in normal form. -/
theorem Run.Normal.knowsByOneName {host : Host} {root : String} {steps : List Step}
    (normal : ((Run.start host root).after steps).Normal) :
    ((Run.start host root).after steps).KnowsByOneName root := by
  have nothing : (Run.start host root).store.AsksInOrder := rfl
  obtain ⟨asks, root_eq⟩ := Run.asksInOrder_after nothing steps
  refine ⟨normal, fun first second => normal.eq_of_resolve, ?_, normal.nodup_asked asks⟩
  rw [asks, root_eq]
  rfl

/-- **One document, one name**: whatever the library, at every moment of bundling a root,
also where the exports of some modules have been asked for before by names in normal form,
which all names are that a run comes to know.  The moments are those that the run has noted,
and those of any other history that leads to the same store, symbols and exports.  A relative
specifier leads from a module inside of the bundle to another one in normal form, and modules
in normal form are different documents. -/
theorem bundleAfter_knowsByOneName (host : Host) {root : String}
    (named : ModulePath.basename root ∉ ["", ".", ".."]) (importAs : String)
    {modules : List String} (normal : ∀ module ∈ modules, ModulePath.IsNormal module) :
    (bundleAfter modules root importAs).Performs (Run.start host root)
        (bundlingHistory host root importAs modules)
      ∧ (∀ steps, ((Run.start host root).after steps).unlogged
            = (bundleAfter modules root importAs (Run.start host root)).2.unlogged →
          ∀ first, first <+: steps → ((Run.start host root).after first).KnowsByOneName root)
      ∧ (∀ specifier module, ModulePath.isRelative specifier = true →
          ModulePath.isRelative module = true →
          ModulePath.isRelative (ModulePath.resolve specifier module) = true
            ∧ ModulePath.IsNormal (ModulePath.resolve specifier module))
      ∧ ∀ first second, ModulePath.isRelative first = true → ModulePath.IsNormal first →
          ModulePath.isRelative second = true → ModulePath.IsNormal second →
          ModulePath.resolve first root = ModulePath.resolve second root → first = second := by
  refine ⟨performs_bundlingHistory host root importAs modules, ?_, ?_, ?_⟩
  · intro steps same first part
    have ends := keepsNormal_bundleAfter named importAs normal _ (Run.normal_start host root)
    exact ((ends.of_unlogged same).of_after part).knowsByOneName
  · intro specifier module inside inside'
    exact ⟨ModulePath.isRelative_resolve inside inside',
      ModulePath.isNormal_resolve specifier module⟩
  · intro first second inside fixed inside' fixed' same
    exact ModulePath.resolve_injective fixed inside fixed' inside' same

theorem bundleAfter_knowsByOneName_shapeLibrary :
    ModulePath.basename "./index" ∉ ["", ".", ".."]
      ∧ (∀ module ∈ ["./shapes", "./index", "rxjs"], ModulePath.IsNormal module)
      ∧ ∀ first, first <+: bundlingHistory shapeLibrary "./index" "shapes"
            ["./shapes", "./index", "rxjs"] →
          ((Run.start shapeLibrary "./index").after first).KnowsByOneName "./index" := by
  have named : ModulePath.basename "./index" ∉ ["", ".", ".."] := by decide
  have normal : ∀ module ∈ ["./shapes", "./index", "rxjs"], ModulePath.IsNormal module := by
    decide
  obtain ⟨performs, holds, -⟩ := bundleAfter_knowsByOneName shapeLibrary named "shapes" normal
  exact ⟨named, normal, holds _ (congrArg Run.unlogged performs.after.symm)⟩

end FlatBundle
