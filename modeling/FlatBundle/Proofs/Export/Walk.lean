/-
  FlatBundle.Proofs.Export.Walk
  ─────────────────────────────
  **THE WALK OVER A DOCUMENT DEPENDS ON HOW MODULES ARE RESOLVED, AND ON NOTHING ELSE.**

  Given two computations that resolve the modules a document names in related ways, the
  two walks over the document are related (`RunM.Congruence.exportDocument`).  The
  relation is any that is kept by sequencing and holds of looking up symbols and making
  links, where all symbols are of the module itself or of a module that it names.
-/
import FlatBundle.Proofs.Run.Congruence

namespace FlatBundle.RunM.Congruence

variable {R : (α : Type) → RunM α → RunM α → Prop} (h : RunM.Congruence R) {module : String}
variable (own : ∀ name, R SymbolId (RunM.symbolOf module name) (RunM.symbolOf module name))
variable (other : ∀ specifier name,
  R SymbolId (RunM.symbolOf (ModulePath.resolve specifier module) name)
    (RunM.symbolOf (ModulePath.resolve specifier module) name))
variable (link : ∀ exported newName, R Unit (RunM.link exported newName)
  (RunM.link exported newName))
variable (aliased : ∀ symbol name result, R (List SymbolId)
  (FlatBundle.exportAs module symbol name result) (FlatBundle.exportAs module symbol name result))
variable {f g : String → RunM (List SymbolId)}
variable (resolve : ∀ specifier, R (List SymbolId) (f (ModulePath.resolve specifier module))
  (g (ModulePath.resolve specifier module)))

include h

include own link in
theorem exportAs (symbol : SymbolId) (name : String) (result : List SymbolId) :
    R _ (exportAs module symbol name result) (exportAs module symbol name result) := by
  refine h.bind (own name) fun newName => ?_
  split
  · exact h.pure result
  · exact h.bind (link symbol newName) fun _ => h.pure _

include aliased

theorem exportSame (result : List SymbolId) (symbol : SymbolId) :
    R _ (exportSame module result symbol) (exportSame module result symbol) := by
  refine h.bindGet fun run other same => ?_
  rw [← same]
  cases run.symbols.get? symbol with
  | some known => exact aliased symbol known.name result
  | none => exact h.pure result

include other

theorem exportItem (specifier : String) (result : List SymbolId) (item : ExportItem) :
    R _ (exportItem module (ModulePath.resolve specifier module) result item)
      (exportItem module (ModulePath.resolve specifier module) result item) :=
  h.bind (other specifier item.name) fun symbol => aliased symbol item.exportedAs result

include resolve

include own in
theorem exportEntry (result : List SymbolId) (entry : String × Value) :
    R _ (exportEntry f module result entry) (exportEntry g module result entry) := by
  unfold FlatBundle.exportEntry
  split
  · next specifier name _ _ =>
      refine h.bind (resolve specifier) fun _ => ?_
      refine h.bind (other specifier name) fun symbol => ?_
      exact aliased symbol entry.1 result
  · exact h.bind (own entry.1) fun symbol => h.pure _

theorem exportDeclaration (result : List SymbolId) (declaration : ExportDeclaration) :
    R _ (exportDeclaration f module result declaration)
      (exportDeclaration g module result declaration) := by
  refine h.bind (resolve declaration.source) fun exported => ?_
  cases declaration.items with
  | some items =>
      exact h.foldlM items (fun acc item _ => h.exportItem other aliased _ acc item) result
  | none => exact h.foldlM exported (fun acc symbol _ => h.exportSame aliased acc symbol) result

variable (entry : ∀ name, R Unit (RunM.perform (.entry module name))
  (RunM.perform (.entry module name)))

include own entry in
/-- **Two walks over one document are related** if they resolve modules in related
ways. -/
theorem exportDocument (document : Option Document) :
    R _ (exportDocument f module document) (exportDocument g module document) := by
  cases document with
  | none => exact h.pure []
  | some document =>
      refine h.bind (h.foldlM _ (fun acc item _ => ?_) []) fun result => ?_
      · exact h.bind (entry item.1) fun _ => h.exportEntry own other aliased resolve acc item
      · exact h.foldlM _ (fun acc declaration _ =>
          h.exportDeclaration other aliased resolve acc declaration) result

end FlatBundle.RunM.Congruence
