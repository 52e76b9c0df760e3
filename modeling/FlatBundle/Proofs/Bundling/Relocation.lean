/-
  FlatBundle.Proofs.Bundling.Relocation
  ─────────────────────────────────────
  **A BUNDLE DOES NOT DEPEND ON WHERE ITS LIBRARY LIVES.**

  A run knows modules by their names inside of the library, and these are read from the
  root only when the host is asked.  So bundling a library is mirrored, step by step, by
  bundling it at another place.

  The two hosts may be of different sizes, as each of them may have documents that are not
  of the library, and with them the depths differ that resolution and conversion allow for.
  Neither depth is ever used up, so both runs are brought to the sum of the two
  (`Run.Reads.exportAll_eq`, `corresponds_convertSymbolWithin`).
-/
import FlatBundle.Proofs.Bundling.Identifiers
import FlatBundle.Proofs.Conversion.Nesting
import FlatBundle.Proofs.Directories
import FlatBundle.Proofs.Run.Mirror

namespace FlatBundle

open ModulePath (IsNormal)

variable {r : Relocation}

/-! ## §1. Exports -/

theorem corresponds_exportModule {f g : String → RunM (List SymbolId)}
    (resolve : ∀ module, IsNormal module → (f module).Corresponds r (g module)) {module : String}
    (h : IsNormal module) : (exportModule f module).Corresponds r (exportModule g module) := by
  refine .bindGet fun run other mirrors => ?_
  rw [mirrors.resolved]
  cases run.resolved.get? module with
  | some result => exact RunM.corresponds_pure result
  | none =>
      refine .bindGet fun run other mirrors => ?_
      rw [mirrors.inProgress]
      split
      · exact RunM.corresponds_pure []
      refine .bind (RunM.corresponds_perform_of_none (.enter module) rfl) fun _ => ?_
      refine .bind (RunM.corresponds_document h) fun document => .bind ?_ fun result => ?_
      -- the document names modules by specifiers, which are resolved to normal forms
      · exact (RunM.congruence_corresponds r).exportDocument (RunM.corresponds_symbolOf h)
          (fun specifier =>
            RunM.corresponds_symbolOf (ModulePath.isNormal_resolve specifier module))
          ((RunM.congruence_corresponds r).exportAs (RunM.corresponds_symbolOf h)
            RunM.corresponds_link)
          (fun specifier => resolve _ (ModulePath.isNormal_resolve specifier module))
          (fun name => RunM.corresponds_perform_of_none (.entry module name) rfl) document
      · exact .bind (RunM.corresponds_perform_of_some (.leave module result) rfl h)
          fun _ => RunM.corresponds_pure result

theorem corresponds_exportNested (depth : Nat) {module : String} (h : IsNormal module) :
    (exportNested depth module).Corresponds r (exportNested depth module) := by
  induction depth generalizing module with
  | zero => exact RunM.corresponds_pure []
  | succ depth ih => exact corresponds_exportModule (fun _ => ih) h

theorem iterate_exportNested (depth more : Nat) :
    exportModule^[depth] (exportNested more) = exportNested (depth + more) := by
  induction depth with
  | zero => rw [Nat.zero_add]; rfl
  | succ depth ih =>
      rw [Function.iterate_succ_apply', ih, Nat.succ_add]
      rfl

/-- The depth that the host calls for may be exceeded. -/
theorem Run.Reads.exportAll_eq {host : Host} {root : String} {run : Run} (h : run.Reads host root)
    (more : Nat) (module : String) :
    exportAll module run = exportNested (exportDepth host + more) module run := by
  have deeper := iterate_exportModule h.faithful module (exportNested more)
  rw [h.host_eq, iterate_exportNested] at deeper
  exact deeper.symm

/-- **The exports of a module** are resolved alike. -/
theorem corresponds_exportAll {module : String} (h : IsNormal module) :
    (exportAll module).Corresponds r (exportAll module) := by
  intro run other mirrors
  rw [mirrors.reads.exportAll_eq (exportDepth r.moved),
    mirrors.reads'.exportAll_eq (exportDepth r.host), Nat.add_comm (exportDepth r.moved)]
  exact corresponds_exportNested _ h run other mirrors

theorem corresponds_askExports {module : String} (h : IsNormal module) :
    (askExports module).Corresponds r (askExports module) :=
  (RunM.congruence_corresponds r).askExports (corresponds_exportAll h)
    (RunM.corresponds_perform_of_none (.answer module) rfl)

/-! ## §2. Values -/

section

variable {f g : SymbolId → ConvertM Unit}
  (symbols : ∀ id, (f id).run.Corresponds r (g id).run)

include symbols

theorem walks_corresponds {module : String} (h : IsNormal module) :
    ConvertM.Walks (fun _ x y => x.run.Corresponds r y.run) module f g := by
  refine (RunM.congruence_corresponds r).walks (P := IsNormal)
    (fun specifier => ModulePath.isNormal_resolve specifier module)
    (fun _ => RunM.corresponds_document) (fun _ => corresponds_askExports)
    (fun _ name placed => RunM.corresponds_symbolOf placed name) RunM.corresponds_canonical
    (fun id run other mirrors => ⟨?_, mirrors⟩) symbols h
  show run.symbols.canonical id = other.symbols.canonical id
  rw [mirrors.symbols]

theorem corresponds_convertDeclaration (target : SymbolId) :
    (convertDeclaration f target).run.Corresponds r (convertDeclaration g target).run := by
  refine ConvertM.Walks.convertDeclaration (S := fun x y => x.run.Corresponds r y.run)
    (fun module placed => walks_corresponds symbols placed) ?_ (RunM.corresponds_pure _)
    ConvertM.corresponds_bind ?_ ?_ ?_
  · exact fun related => ConvertM.corresponds_bindGet fun run other mirrors =>
      related run other mirrors.symbols.symm mirrors.normal.isNormal_module
  · exact fun id => ConvertM.corresponds_lift (RunM.corresponds_canonical id)
  · exact fun module placed => ConvertM.corresponds_lift (RunM.corresponds_document placed)
  · exact (RunM.congruence_corresponds r).convertM.storeConverted
      (ConvertM.corresponds_lift (RunM.corresponds_perform_of_none (.convert target) rfl))
      fun value => ConvertM.corresponds_lift
        (RunM.corresponds_perform_of_none (.store target value) rfl)

theorem corresponds_convertOnce (id : SymbolId) :
    (convertOnce f id).run.Corresponds r (convertOnce g id).run := by
  refine ConvertM.corresponds_bind (ConvertM.corresponds_lift (RunM.corresponds_canonical id))
    fun canonical => ConvertM.corresponds_bindGet fun run other mirrors => ?_
  rw [mirrors.symbols]
  cases run.symbols.get? canonical.symbol with
  | none => exact RunM.corresponds_pure _
  | some symbol =>
      cases asked : symbol.referenced with
      | true =>
          simp only [asked, if_true]
          exact RunM.corresponds_pure _
      | false =>
          simp only [asked]
          refine ConvertM.corresponds_bind (ConvertM.corresponds_lift ?_) fun _ =>
            corresponds_convertDeclaration symbols canonical.symbol
          exact RunM.corresponds_perform_of_none (.mark canonical.symbol) rfl

theorem corresponds_iterate (depth : Nat) (id : SymbolId) :
    (convertOnce^[depth] f id).run.Corresponds r (convertOnce^[depth] g id).run := by
  induction depth generalizing id with
  | zero => exact symbols id
  | succ depth ih =>
      rw [Function.iterate_succ_apply', Function.iterate_succ_apply']
      exact corresponds_convertOnce ih id

end

/-! ## §3. The root -/

theorem corresponds_settleSymbols (exported : List SymbolId) :
    (settleSymbols exported).Corresponds r (settleSymbols exported) := by
  refine .bind (RunM.corresponds_perform_of_none (.roots exported) rfl) fun _ =>
    .bindGet fun run other mirrors => ?_
  rw [mirrors.symbols]
  exact (RunM.congruence_corresponds r).forM run.symbols.ids fun id _ =>
    RunM.corresponds_perform_of_none (.settle id) rfl

/-- The entries of all documents of a host. -/
def Host.entryCount (host : Host) : Nat :=
  (host.toList.flatMap fun pair => pair.2.entries.toList).length

/-- Below the last level that its own host calls for, each run has as many levels more as
the other host calls for. -/
theorem corresponds_convertSymbolWithin (id : SymbolId) :
    (convertSymbolWithin (convertNested (2 * r.moved.entryCount)) id).run.Corresponds r
      (convertSymbolWithin (convertNested (2 * r.host.entryCount)) id).run := by
  refine ConvertM.corresponds_bindGet fun run other mirrors => ?_
  have depth : conversionDepth run + 2 * r.moved.entryCount
      = conversionDepth other + 2 * r.host.entryCount := by
    rw [conversionDepth, conversionDepth, mirrors.reads.host_eq, mirrors.reads'.host_eq,
      mirrors.rootExports, Host.entryCount, Host.entryCount]
    omega
  rw [convertNested_eq_iterate, convertNested_eq_iterate, ← Function.iterate_add_apply,
    ← Function.iterate_add_apply, depth]
  exact corresponds_iterate (fun _ => RunM.corresponds_pure _) _ id

theorem corresponds_convertRootWithin (roots : rootModule r.place = rootModule r.root)
    (h : IsNormal (rootModule r.root)) :
    (convertRootWithin (convertNested (2 * r.moved.entryCount)) r.root).run.Corresponds r
      (convertRootWithin (convertNested (2 * r.host.entryCount)) r.place).run := by
  have congruence := (RunM.congruence_corresponds r).convertM
  rw [convertRootWithin, convertRootWithin, roots]
  refine congruence.bind (ConvertM.corresponds_lift (corresponds_askExports h)) fun exported => ?_
  refine congruence.bind (ConvertM.corresponds_lift (corresponds_settleSymbols exported))
    fun _ => ?_
  refine congruence.bind ?_ fun _ => congruence.pure exported
  exact congruence.forM exported fun id _ => corresponds_convertSymbolWithin id

/-- Writing the bundle reads the symbols only. -/
theorem corresponds_writeBundle (importAs : String) (result : Except BundleError (List SymbolId)) :
    (writeBundle importAs result).Corresponds r (writeBundle importAs result) := by
  cases result with
  | error error => exact RunM.corresponds_pure _
  | ok exported =>
      refine .bindGet fun run other mirrors => ?_
      rw [mirrors.symbols]
      exact RunM.corresponds_pure _

theorem RunM.bind_apply_congr {α β : Type} {x y : RunM α} {run : Run} (same : x run = y run)
    (f : α → RunM β) : (x >>= f) run = (y >>= f) run := by
  show f (x run).1 (x run).2 = f (y run).1 (y run).2
  rw [same]

/-- No conversion is cut short, so levels that are added change nothing. -/
theorem bundle_eq_within (root importAs : String) (host : Host) (more : Nat) :
    bundle root importAs host
      = (((convertRootWithin (convertNested more) root).run >>= writeBundle importAs)
        (Run.start host root)).1 := by
  have uncut : (convertRootWithin (convertNested more) root).run (Run.start host root)
      = (convertRoot root).run (Run.start host root) :=
    (Run.exporting_start host root).convertRootWithin_eq (convertNested more)
  rw [RunM.bind_apply_congr uncut, ← bundleFrom_eq, bundle]

/-- **Bundling is mirrored**: a library has one bundle, wherever it lives. -/
theorem Relocation.bundle_eq (r : Relocation) (roots : rootModule r.place = rootModule r.root)
    (h : IsNormal (rootModule r.root)) (importAs : String) :
    bundle r.place importAs r.moved = bundle r.root importAs r.host := by
  rw [bundle_eq_within r.place importAs r.moved (2 * r.host.entryCount),
    bundle_eq_within r.root importAs r.host (2 * r.moved.entryCount)]
  have both := (corresponds_convertRootWithin roots h).bind (corresponds_writeBundle importAs)
  exact (both _ _ (Run.mirrors_start r)).1.symm

/-! ## §4. Directories -/

namespace ModulePath

variable {directory file : String} (inside : '/' ∉ file.toList)

include inside

theorem basename_of_no_slash : basename file = file := by
  rw [basename, splitLast_of_no_slash inside]

theorem dirname_of_no_slash : dirname file = "." := by
  rw [dirname, splitLast_of_no_slash inside]

theorem basename_join : basename (directory ++ "/" ++ file) = file := by
  rw [basename, toList_join, splitLast_append inside]
  exact String.ofList_toList

/-- What is read from a file in a directory is read from the directory. -/
theorem normalize_dirname_join (module : String) :
    normalize (dirname (directory ++ "/" ++ file) ++ "/" ++ module)
      = normalize (directory ++ "/" ++ module) := by
  rw [dirname, toList_join, splitLast_append inside]
  cases text : directory.toList with
  | nil =>
      -- the top is written as an empty text here and as a slash there
      have rooted : isRooted ("/" ++ "/" ++ module) = isRooted (directory ++ "/" ++ module) := by
        simp [isRooted, text]
      refine (normalize_eq_iff rooted).2 (List.reverse_inj.1 ?_)
      rw [reverse_segments_join, reverse_segments_join, text]
      rfl
  | cons c rest =>
      have same : String.ofList (c :: rest) = directory := by
        rw [← text]
        exact String.ofList_toList
      dsimp only
      rw [same]

end ModulePath

open ModulePath

/-- A library in a directory, and the same library at the top. -/
theorem sources_join {directory file : String} {host moved : Host} (inside : '/' ∉ file.toList)
    (same : ∀ module, isRelative module = true → normalize module = module →
      moved.get? (normalize (directory ++ "/" ++ module)) = host.get? module) {module : String}
    (normal : IsNormal module) :
    moved.sources (directory ++ "/" ++ file) module = host.sources file module := by
  unfold Host.sources
  split
  · next relative =>
      have top : resolve module file = module := by
        have segs : segments (dirname file ++ "/" ++ module) = segments module := by
          have read := segments_resolve normal relative file
          rw [resolve, if_pos relative, segments_normalize, dirname_of_no_slash inside] at read
          rw [dirname_of_no_slash inside]
          exact read
        rw [resolve, if_pos relative, ModulePath.normalize, segs, dirname_of_no_slash inside,
          isRooted_join (by decide)]
        exact (eq_render_of_isNormal normal relative).symm
      rw [top, resolve, if_pos relative, normalize_dirname_join inside]
      exact same module relative (normal relative)
  · rfl

/-- **A bundle does not depend on where its library lives**: whatever directory the library
is in, and whatever else the two hosts have. -/
theorem bundle_join {directory file : String} {host moved : Host} (named : IsSegment file.toList)
    (same : ∀ module, isRelative module = true → normalize module = module →
      moved.get? (normalize (directory ++ "/" ++ module)) = host.get? module) (importAs : String) :
    bundle (directory ++ "/" ++ file) importAs moved = bundle file importAs host := by
  let r : Relocation :=
    { host := host
      root := file
      moved := moved
      place := directory ++ "/" ++ file
      same := fun _ normal => sources_join named.no_slash same normal }
  have roots : rootModule r.place = rootModule r.root := by
    rw [rootModule, rootModule, basename_join named.no_slash, basename_of_no_slash named.no_slash]
  have normal : IsNormal (rootModule r.root) := by
    rw [rootModule, basename_of_no_slash named.no_slash]
    exact isNormal_slash named
  exact r.bundle_eq roots normal importAs

theorem bundle_join_sourceLibrary :
    IsSegment "index".toList
      ∧ (∀ module, isRelative module = true → normalize module = module →
        sourceLibrary.get? (normalize ("src" ++ "/" ++ module)) = shapeLibrary.get? module)
      ∧ bundle ("src" ++ "/" ++ "index") "shapes" sourceLibrary
        = bundle "index" "shapes" shapeLibrary := by
  have named : IsSegment "index".toList := ⟨by decide, by decide, by decide, by decide⟩
  have same : ∀ module, isRelative module = true → normalize module = module →
      sourceLibrary.get? (normalize ("src" ++ "/" ++ module)) = shapeLibrary.get? module := by
    intro module relative normal
    -- modules in normal form are different documents, also in a directory
    have apart : ∀ name, isRelative name = true → normalize name = name → module ≠ name →
        normalize ("src" ++ "/" ++ name) ≠ normalize ("src" ++ "/" ++ module) := by
      intro name relative' normal' ne equal
      have read : resolve name ("src" ++ "/" ++ "index")
          = resolve module ("src" ++ "/" ++ "index") := by
        rw [resolve, resolve, if_pos relative, if_pos relative',
          normalize_dirname_join named.no_slash, normalize_dirname_join named.no_slash, equal]
      exact ne (resolve_injective (fun _ => normal') relative' (fun _ => normal) relative read).symm
    by_cases index : module = "./index"
    · rw [index]
      rfl
    by_cases shapes : module = "./shapes"
    · rw [shapes]
      rfl
    have first := apart "./index" (by decide) (by decide +kernel) index
    have second := apart "./shapes" (by decide) (by decide +kernel) shapes
    rw [show normalize ("src" ++ "/" ++ "./index") = "./src/index" by decide +kernel] at first
    rw [show normalize ("src" ++ "/" ++ "./shapes") = "./src/shapes" by decide +kernel] at second
    show Pairs.find? _ [("./src/index", indexDocument), ("./src/shapes", shapesDocument)]
      = Pairs.find? _ [("./index", indexDocument), ("./shapes", shapesDocument)]
    rw [Pairs.find?, if_neg first, Pairs.find?, if_neg second, Pairs.find?, Pairs.find?,
      if_neg (Ne.symm index), Pairs.find?, if_neg (Ne.symm shapes), Pairs.find?]
  exact ⟨named, same, bundle_join named same "shapes"⟩

end FlatBundle
