/-
  FlatBundle.Proofs.Bundling.Ambient
  ──────────────────────────────────
  **NAMES FROM OUTSIDE OF THE LIBRARY.**

  A global name that its module does not declare, such as `Math`, is left where it
  stands.  In the bundle, where all modules have become one, such a name means what it
  meant before unless the bundle has an entry under it.  Private names keep clear of the
  names that the root exports, and of nothing else:

    • `exists_of_get?`: an entry stands under the name of a root export, or under a
      private word that has been handed out,
    • `ambient_isOutside`: any other ambient name stays outside of the bundle,
    • `capturesAmbient_libraries`: both kinds of entries do capture ambient names.
-/
import FlatBundle.Proofs.Bundling.Contents
import FlatBundle.Proofs.Bundling.Names
import FlatBundle.Proofs.Value.Parts

namespace FlatBundle

open PrivateName (IsWord)

variable {host : Host} {root : String} {exported : List SymbolId} {run : Run}
variable {named : SymbolTable} {importAs : String} {bundled : Bundle}

/-! ## §1. Ambient names -/

/-- In the value of a symbol there is a global name that its module does not declare, so
that conversion leaves it. -/
def SymbolTable.LeavesGlobal (table : SymbolTable) (sources : Sources) (id : SymbolId)
    (name : String) : Prop :=
  ∃ module value arguments, table.declared? sources id = some (module, value)
    ∧ value.Reaches sources module (.ofReference (.global name arguments))
    ∧ sources.declares module name = false

/-- **An ambient name stays in the value where it stands.** -/
theorem SymbolTable.LeavesGlobal.contains {table : SymbolTable} {sources : Sources} {id : SymbolId}
    {name : String} (leaves : table.LeavesGlobal sources id name) :
    ∃ final arguments, table.final? sources exported id = some final
      ∧ final.Contains (.ofReference (.global name arguments)) := by
  obtain ⟨module, value, arguments, declared, reaches, ambient⟩ := leaves
  have stands := reaches.rewrite (table.pointer exported)
  have kept : (Value.ofReference (.global name arguments)).rewrite sources (table.pointer exported)
      module = .ofReference
        (.global name (Rewrite.list? sources (table.pointer exported) module arguments)) := by
    show Reference.rewrite sources _ module (.global name arguments) = _
    rw [Reference.rewrite, if_neg (by simp [ambient])]
  rw [kept] at stands
  refine ⟨_, _, ?_, stands⟩
  rw [SymbolTable.final?, declared]
  rfl

/-! ## §2. Names of entries -/

/-- A symbol that has a private name has a row among the private symbols. -/
theorem Bundle.Holds.exists_row
    (holds : bundled.Holds (host.sources root) exported importAs named)
    (converted : run.Converted host root exported)
    (naming : run.symbols.NamedFrom exported named) {id : SymbolId} {name : String}
    (hname : named.privateName? id = some name) :
    ∃ row ∈ bundled.privates, row.privateName = name := by
  have hid := (naming.isSome_privateName?_iff id).1 (by rw [hname]; rfl)
  refine ⟨named.row id, ?_, SymbolTable.bundleName_of_privateName? hname⟩
  rw [holds.privates_eq converted naming]
  exact List.mem_map_of_mem hid

/-- The rows of the private symbols carry private words. -/
theorem Run.Converted.isWord_privateName (converted : run.Converted host root exported)
    (naming : run.symbols.NamedFrom exported named)
    (holds : bundled.Holds (host.sources root) exported importAs named) {row : PrivateEntry}
    (hrow : row ∈ bundled.privates) : IsWord row.privateName := by
  obtain ⟨number, hnumber⟩ := List.mem_iff_getElem?.1 hrow
  exact (converted.privates_isNthFree naming holds hnumber).free.1

/-- **An entry stands under the name of a root export, or under a private word that has
been handed out.** -/
theorem Run.Converted.exists_of_get? (converted : run.Converted host root exported)
    (naming : run.symbols.NamedFrom exported named)
    (holds : bundled.Holds (host.sources root) exported importAs named) {name : String}
    {entry : Value} (found : bundled.document.get? name = some entry) :
    name ∈ named.exportedNames exported
      ∨ IsWord name ∧ ∃ row ∈ bundled.privates, row.privateName = name := by
  have mem := Pairs.mem_of_find?_eq_some found
  rw [holds.entries] at mem
  obtain ⟨id, hid, written⟩ := List.mem_filterMap.1 mem
  rw [SymbolTable.mem_referenced, naming.same.isReferenced] at hid
  obtain ⟨_, -, same⟩ := Option.map_eq_some_iff.1 written
  obtain ⟨rfl, rfl⟩ := Prod.mk.inj same
  cases hp : named.privateName? id with
  | none =>
      left
      obtain ⟨key, hroot⟩ := naming.key?_of_privateName?_eq_none converted.settled hid hp
      rw [naming.same.exportedNames]
      exact SymbolTable.mem_exportedNames hroot key
  | some name =>
      right
      obtain ⟨row, hrow, rfl⟩ := holds.exists_row converted naming hp
      rw [SymbolTable.bundleName_of_privateName? hp]
      exact ⟨converted.isWord_privateName naming holds hrow, row, hrow, rfl⟩

/-! ## §3. The theorem -/

/-- The ambient name is still there in the entry of the symbol; and it is not the name of
any entry, unless the root exports it or it was handed out to a private symbol. -/
structure Bundle.KeepsOutside (bundle : Bundle) (exported : List SymbolId) (table : SymbolTable)
    (id : SymbolId) (name : String) : Prop where
  stays : ∃ entry arguments, bundle.document.get? (table.bundleName id) = some entry
    ∧ entry.Contains (.ofReference (.global name arguments))
  outside : name ∉ table.exportedNames exported →
    (IsWord name → ∀ row ∈ bundle.privates, row.privateName ≠ name) →
    bundle.document.get? name = none

/-- **An ambient name stays outside of the bundle**, unless it is the name of a root
export or a private word that has been handed out. -/
theorem ambient_isOutside {host : Host} (free : host.HandleFree) (root importAs : String) :
    ∃ exported table bundled, BundlesTo host root importAs exported table bundled
      ∧ ∀ id ∈ table.referenced, ∀ name, table.LeavesGlobal (host.sources root) id name →
        bundled.KeepsOutside exported table id name := by
  obtain ⟨exported, run, table, bundled, bundles, converted, naming, holds⟩ :=
    free.bundlesTo root importAs
  refine ⟨exported, table, bundled, bundles, ?_⟩
  intro id hid name leaves
  constructor
  · rw [holds.get?_bundleName converted naming hid]
    exact leaves.contains
  · intro unexported unused
    cases found : bundled.document.get? name with
    | none => rfl
    | some entry =>
        rcases converted.exists_of_get? naming holds found with public_ | ⟨word, row, hrow, same⟩
        · exact absurd public_ unexported
        · exact absurd same (unused word row hrow)

/-! ## §4. Two libraries -/

/-- A root that refers to the ambient name `ɵa` and to a name of `./lib`. -/
def markLibrary : Host :=
  Entries.ofList
    [("./index", Document.ofEntries
        (Entries.ofList [("Open", .arr [.global "ɵa", .imported "./lib" "Hidden"])])),
      ("./lib", Document.ofEntries (Entries.ofList [("Hidden", .str "hidden")]))]

/-- A root that declares `Math`, and a module that refers to the ambient name `Math`. -/
def mathLibrary : Host :=
  Entries.ofList
    [("./index", Document.ofEntries
        (Entries.ofList [("Math", .arr [.imported "./lib" "Circle"])])),
      ("./lib", Document.ofEntries (Entries.ofList [("Circle", .arr [.global "Math"])]))]

theorem handleFree_markLibrary : markLibrary.HandleFree := by decide

theorem ambient_isOutside_markLibrary :
    ∃ exported table bundled, BundlesTo markLibrary "./index" "lib" exported table bundled
      ∧ ∀ id ∈ table.referenced, ∀ name,
        table.LeavesGlobal (markLibrary.sources "./index") id name →
        bundled.KeepsOutside exported table id name :=
  ambient_isOutside handleFree_markLibrary "./index" "lib"

/-- The library has an ambient name in a value of its bundle, and the bundle has an entry
of that name. -/
def Host.CapturesAmbient (host : Host) (root importAs name : String) : Prop :=
  ∃ exported table bundled, BundlesTo host root importAs exported table bundled
    ∧ ∃ id ∈ table.referenced, table.LeavesGlobal (host.sources root) id name
      ∧ (bundled.document.get? name).isSome = true

/-- What one looks at to see that a name is captured: whether the bundle has an entry of
that name, and a symbol's module and name, whether it is in the bundle, and what it
exports. -/
def Host.outcome (host : Host) (root importAs : String) (id : SymbolId) (name : String) :
    Option (Bool × String × String × Bool × Option SymbolId) :=
  match bundleFrom root importAs (Run.start host root) with
  | (.ok bundled, run) => (run.symbols.get? id).map fun symbol =>
      ((bundled.document.get? name).isSome, symbol.module, symbol.name, symbol.referenced,
        symbol.exports)
  | (.error _, _) => none

theorem Host.HandleFree.capturesAmbient {host : Host} (free : host.HandleFree)
    {root importAs name module declared : String} {id : SymbolId} {value : Value}
    {arguments : Option (List Value)}
    (outcome : host.outcome root importAs id name = some (true, module, declared, true, none))
    (hvalue : (host.sources root).value? (module, declared) = some value)
    (reaches : value.Reaches (host.sources root) module (.ofReference (.global name arguments)))
    (ambient : (host.sources root).declares module name = false) :
    host.CapturesAmbient root importAs name := by
  obtain ⟨exported, run, table, bundled, hconvert, converted, hnamed, naming, hbundle, -⟩ :=
    (Run.exporting_start host root).bundleFrom free importAs
  have ends : bundleFrom root importAs (Run.start host root) = (.ok bundled, run) := by
    rw [bundleFrom_of_convertRoot hconvert] at hbundle ⊢
    rw [← hbundle]
  delta Host.outcome at outcome
  rw [ends] at outcome
  obtain ⟨symbol, hs, same⟩ := Option.map_eq_some_iff.1 outcome
  obtain ⟨entry, rfl, rfl, marked, stop⟩ := by simpa only [Prod.mk.injEq] using same
  -- the symbol is its own declaration, as it exports nothing
  have hid : run.symbols.isReferenced id = true := by
    rw [SymbolTable.isReferenced, hs]
    exact marked
  have stop' : run.symbols.exports id = none := by
    rw [SymbolTable.exports, hs]
    exact stop
  have key : run.symbols.key? id = some (symbol.module, symbol.name) := by
    rw [SymbolTable.key?, hs]
    rfl
  have declares : table.declared? (host.sources root) id = some (symbol.module, value) := by
    rw [naming.declared? converted.settled _ hid, SymbolTable.declared?, SymbolTable.origin?,
      SymbolTable.declaration_of_exports_eq_none stop', key, Option.bind_some, hvalue]
    rfl
  refine ⟨exported, table, bundled, ⟨⟨run, hconvert, hnamed⟩, hbundle⟩, id, ?_,
    ⟨symbol.module, value, arguments, declares, reaches, ambient⟩, entry⟩
  rw [SymbolTable.mem_referenced, naming.same.isReferenced]
  exact hid

theorem outcome_markLibrary :
    markLibrary.outcome "./index" "lib" 0 "ɵa" = some (true, "./index", "Open", true, none) := by
  decide +kernel

theorem outcome_mathLibrary :
    mathLibrary.outcome "./index" "lib" 1 "Math" = some (true, "./lib", "Circle", true, none) := by
  decide +kernel

/-- **Entries capture ambient names**: one that is a private word that is handed out, and
one that the root exports. -/
theorem capturesAmbient_libraries :
    markLibrary.CapturesAmbient "./index" "lib" "ɵa"
      ∧ mathLibrary.CapturesAmbient "./index" "lib" "Math" := by
  constructor
  · have hvalue : (markLibrary.sources "./index").value? ("./index", "Open")
        = some (.arr [.global "ɵa", .imported "./lib" "Hidden"]) := rfl
    have reaches : Value.Reaches (markLibrary.sources "./index") "./index"
        (.arr [.global "ɵa", .imported "./lib" "Hidden"]) (.global "ɵa") :=
      Relation.ReflTransGen.single ⟨by simp [Value.reference?], List.mem_cons_self⟩
    exact handleFree_markLibrary.capturesAmbient outcome_markLibrary hvalue reaches
      (by decide +kernel)
  · have free : mathLibrary.HandleFree := by decide
    have hvalue : (mathLibrary.sources "./index").value? ("./lib", "Circle")
        = some (.arr [.global "Math"]) := rfl
    have reaches : Value.Reaches (mathLibrary.sources "./index") "./lib"
        (.arr [.global "Math"]) (.global "Math") :=
      Relation.ReflTransGen.single ⟨by simp [Value.reference?], List.mem_cons_self⟩
    exact free.capturesAmbient outcome_mathLibrary hvalue reaches (by decide +kernel)

end FlatBundle
