/-
  FlatBundle.Proofs.Bundling.Layout
  ─────────────────────────────────
  **WHERE THINGS STAND IN A BUNDLE.**

  The symbols of a bundle have different names, so writing their entries one after
  the other replaces nothing: the entries stand in order of creation, one for each
  symbol that has a value (`toList_bundleEntries`).  The rows of the private symbols
  stand in order of creation too (`privates_eq`).
-/
import FlatBundle.Proofs.Naming.FinalNames

namespace FlatBundle

variable {host : Host} {root : String} {exported : List SymbolId} {run : Run}
variable {named : SymbolTable}

/-! ## §1. Entries -/

/-- The entry of a symbol in the bundle, if it has a value. -/
def SymbolTable.entryOf? (table : SymbolTable) (sources : Sources) (exported : List SymbolId)
    (id : SymbolId) : Option (String × Value) :=
  (table.final? sources exported id).map fun value => (table.bundleName id, value)

theorem SymbolTable.keys_entryOf? (table : SymbolTable) (sources : Sources)
    (exported ids : List SymbolId) :
    Pairs.keys (ids.filterMap (table.entryOf? sources exported))
      = (ids.filter fun id => (table.declared? sources id).isSome).map table.bundleName := by
  induction ids with
  | nil => rfl
  | cons id rest ih =>
      cases hd : table.declared? sources id with
      | none =>
          have nothing : table.entryOf? sources exported id = none := by
            rw [entryOf?, final?, hd]
            rfl
          rw [List.filterMap_cons_none nothing, List.filter_cons_of_neg (by simp [hd]), ih]
      | some declared =>
          have something : table.entryOf? sources exported id = some (table.bundleName id,
              declared.2.rewrite sources (table.pointer exported) declared.1) := by
            rw [entryOf?, final?, hd]
            rfl
          rw [List.filterMap_cons_some something, List.filter_cons_of_pos (by simp [hd]),
            List.map_cons, ← ih]
          rfl

/-- Entries are written one after the other; each goes to the end. -/
theorem Run.Converted.foldlM_addEntry (h : run.Converted host root exported)
    (free : host.HandleFree) (naming : run.symbols.NamedFrom exported named)
    (rest : List SymbolId) : ∀ (walked : List SymbolId) (entries : Entries Value),
      (walked ++ rest).Nodup → (∀ id ∈ walked ++ rest, run.symbols.isReferenced id = true) →
      entries.toList = walked.filterMap (named.entryOf? (host.sources root) exported) →
      ∃ all, rest.foldlM (addEntry named) entries = .ok all
        ∧ all.toList
          = (walked ++ rest).filterMap (named.entryOf? (host.sources root) exported) := by
  induction rest with
  | nil =>
      intro walked entries _ _ before
      exact ⟨entries, rfl, by rw [List.append_nil]; exact before⟩
  | cons id rest ih =>
      intro walked entries nodup marks before
      have split : walked ++ id :: rest = walked ++ [id] ++ rest := by simp
      have hid := marks id (by simp)
      have value_eq : ((named.get? id).getD default).value = named.value? id := by
        rw [SymbolTable.value?]
        cases named.get? id <;> rfl
      rcases h.finalize_value free naming hid with ⟨hvalue, nothing⟩ |
        ⟨value, final, hvalue, hf, hs, -⟩
      · -- no value, no entry
        have step : addEntry named entries id = .ok entries := by
          rw [addEntry]
          simp only [value_eq, hvalue]
          rfl
        have skipped : named.entryOf? (host.sources root) exported id = none := by
          rw [SymbolTable.entryOf?, nothing]
          rfl
        obtain ⟨all, hall, hlist⟩ := ih (walked ++ [id]) entries (split ▸ nodup) (split ▸ marks) (by
          rw [List.filterMap_append, List.filterMap_cons_none skipped, before]
          simp)
        refine ⟨all, ?_, split ▸ hlist⟩
        rw [List.foldlM_cons, step]
        exact hall
      · have step : addEntry named entries id
            = .ok (entries.insert (named.bundleName id) final) := by
          rw [addEntry]
          simp only [value_eq, hvalue, hf]
          rfl
        have written : named.entryOf? (host.sources root) exported id
            = some (named.bundleName id, final) := by
          rw [SymbolTable.entryOf?, hs]
          rfl
        -- the name is new, as the names of symbols are different
        have new : named.bundleName id ∉ Pairs.keys entries.toList := by
          rw [before, SymbolTable.keys_entryOf?]
          intro taken
          obtain ⟨other, hother, same⟩ := List.mem_map.1 taken
          have walkedOther := (List.mem_filter.1 hother).1
          have equal := naming.bundleName_injective h.settled
            (marks other (List.mem_append_left _ walkedOther)) hid same
          exact (List.nodup_append.1 nodup).2.2 other walkedOther id List.mem_cons_self equal
        obtain ⟨all, hall, hlist⟩ := ih (walked ++ [id])
          (entries.insert (named.bundleName id) final) (split ▸ nodup) (split ▸ marks) (by
            show Pairs.put (named.bundleName id) final entries.toList = _
            rw [Pairs.put_of_not_mem final new, List.filterMap_append,
              List.filterMap_cons_some written, before]
            rfl)
        refine ⟨all, ?_, split ▸ hlist⟩
        rw [List.foldlM_cons, step]
        exact hall

/-- **The entries of the bundle**: one for each symbol with a value, in order of
creation. -/
theorem Run.Converted.bundleEntries (h : run.Converted host root exported)
    (free : host.HandleFree) (naming : run.symbols.NamedFrom exported named) :
    ∃ entries, named.bundleEntries = .ok entries
      ∧ entries.toList
        = named.referenced.filterMap (named.entryOf? (host.sources root) exported) := by
  have marks : ∀ id ∈ [] ++ named.referenced, run.symbols.isReferenced id = true := by
    intro id hid
    rw [List.nil_append, SymbolTable.mem_referenced, naming.same.isReferenced] at hid
    exact hid
  exact h.foldlM_addEntry free naming named.referenced [] Entries.empty named.nodup_referenced marks
    rfl

/-! ## §2. Rows of private symbols -/

/-- The row of a symbol among the private ones. -/
def SymbolTable.row (table : SymbolTable) (id : SymbolId) : PrivateEntry :=
  let symbol := (table.get? id).getD default
  ⟨table.bundleName id, symbol.name, symbol.module⟩

/-- The row of a symbol that has a private name. -/
def Symbol.row? (symbol : Symbol) : Option PrivateEntry :=
  symbol.privateName.map fun name => ⟨name, symbol.name, symbol.module⟩

/-- The symbols of a table are what its numbers stand for. -/
theorem SymbolTable.filterMap_toList {α : Type} (table : SymbolTable) (view : Symbol → Option α) :
    table.toList.filterMap view = table.ids.filterMap fun id => (table.get? id).bind view := by
  have symbols : table.ids.map table.get? = table.toList.map some := by
    apply List.ext_getElem
    · simp [ids, toList, size]
    · intro i h _
      simp [ids, toList, get?]
  calc table.toList.filterMap view
      = (table.toList.map some).filterMap fun symbol => symbol.bind view := by
        rw [List.filterMap_map]
        rfl
    _ = table.ids.filterMap fun id => (table.get? id).bind view := by
        rw [← symbols, List.filterMap_map]
        rfl

/-- Rows are kept for some symbols, and for no other. -/
theorem filterMap_eq_map_filter {α β : Type} {f : α → Option β} {p : α → Bool} {g : α → β}
    (items : List α) (h : ∀ item ∈ items, f item = if p item then some (g item) else none) :
    items.filterMap f = (items.filter p).map g := by
  induction items with
  | nil => rfl
  | cons item rest ih =>
      have here := h item List.mem_cons_self
      have there := ih fun other hother => h other (List.mem_cons_of_mem _ hother)
      cases hp : p item with
      | true =>
          rw [hp, if_pos rfl] at here
          rw [List.filterMap_cons_some here, List.filter_cons_of_pos hp, List.map_cons, there]
      | false =>
          rw [hp, if_neg Bool.false_ne_true] at here
          rw [List.filterMap_cons_none here, List.filter_cons_of_neg (by simp [hp]), there]

/-- **The private symbols of the bundle**, in order of creation, each once. -/
theorem SymbolTable.NamedFrom.privates_eq {table : SymbolTable}
    (h : table.NamedFrom exported named) :
    named.privates = (table.privateIds exported).map named.row := by
  -- a symbol has a private name exactly if it is in the bundle and private
  have rows : ∀ id ∈ named.ids, (named.get? id).bind Symbol.row?
      = if (table.isReferenced id && table.isPrivate exported id) = true then
          some (named.row id) else none := by
    intro id hid
    obtain ⟨symbol, hs⟩ := exists_get?_of_lt (List.mem_range.1 hid)
    have name : named.privateName? id = symbol.privateName := by
      rw [privateName?, hs]
      rfl
    have iff := h.isSome_privateName?_iff id
    rw [name, privateIds, List.mem_filter, mem_referenced, ← Bool.and_eq_true] at iff
    rw [row, bundleName, hs, Option.bind_some, Symbol.row?]
    cases hp : symbol.privateName with
    | none =>
        rw [hp] at iff
        rw [if_neg fun both => Bool.false_ne_true (iff.2 both)]
        rfl
    | some name =>
        rw [hp] at iff
        rw [if_pos (iff.1 rfl)]
        simp [hp]
  rw [privates, show (fun symbol : Symbol => symbol.privateName.map fun privateName =>
    (⟨privateName, symbol.name, symbol.module⟩ : PrivateEntry)) = Symbol.row? from rfl,
    filterMap_toList, filterMap_eq_map_filter named.ids rows, privateIds,
    show table.referenced = table.ids.filter table.isReferenced from rfl, List.filter_filter,
    ids, h.same.size, ids]
  simp only [Bool.and_comm]

/-! ## §3. The bundle -/

/-- What a bundle holds, said of the table `named` in which all private symbols have
their names. -/
structure Bundle.Holds (sources : Sources) (exported : List SymbolId) (importAs : String)
    (named : SymbolTable) (bundle : Bundle) : Prop where
  entries : bundle.document.entries.toList
    = named.referenced.filterMap (named.entryOf? sources exported)
  privates : bundle.privates
    = (named.referenced.filter (named.isPrivate exported)).map named.row
  handleFree : bundle.document.HandleFree
  importAs : bundle.document.importAs = some importAs
  exports : bundle.document.exports = none

/-- **A converted run has a bundle.** -/
theorem Run.Converted.toBundle (h : run.Converted host root exported) (free : host.HandleFree)
    (importAs : String) :
    ∃ named bundle, run.symbols.namePrivates exported = .ok named
      ∧ run.symbols.NamedFrom exported named
      ∧ run.symbols.toBundle exported importAs = .ok bundle
      ∧ bundle.Holds (host.sources root) exported importAs named := by
  obtain ⟨named, hnamed, naming⟩ := h.namePrivates
  obtain ⟨entries, hentries, hlist⟩ := h.bundleEntries free naming
  refine ⟨named, ⟨{ Document.ofEntries entries with importAs := some importAs }, named.privates⟩,
    hnamed, naming, ?_, ⟨hlist, ?_, ?_, rfl, rfl⟩⟩
  · rw [SymbolTable.toBundle, hnamed]
    show (do let entries ← named.bundleEntries; _) = _
    rw [hentries]
    rfl
  · show named.privates = _
    rw [naming.privates_eq, naming.filter_isPrivate h.settled]
  · intro entry hentry
    replace hentry : entry ∈ entries.toList := hentry
    rw [hlist] at hentry
    obtain ⟨id, hid, hwritten⟩ := List.mem_filterMap.1 hentry
    rw [SymbolTable.mem_referenced, naming.same.isReferenced] at hid
    -- each entry is that of a symbol, whose final value has no handles
    obtain ⟨value, hvalue, rfl⟩ := Option.map_eq_some_iff.1 hwritten
    rcases h.finalize_value free naming hid with ⟨-, nothing⟩ | ⟨_, final, -, -, hs, noHandles⟩
    · cases nothing.symm.trans hvalue
    · rw [← Option.some.inj (hs.symm.trans hvalue)] at *
      exact noHandles

/-- The bundle is written once the root has been converted; a failure is passed on. -/
def writeBundle (importAs : String) : Except BundleError (List SymbolId) → RunM (Bundling Bundle)
  | .ok exported => do return (← get).symbols.toBundle exported importAs
  | .error error => return .error error

theorem bundleFrom_eq (root importAs : String) :
    bundleFrom root importAs = (convertRoot root).run >>= writeBundle importAs :=
  rfl

theorem bundleFrom_of_convertRoot {importAs : String} {later : Run}
    (converted : convertRoot root run = (.ok exported, later)) :
    bundleFrom root importAs run = (later.symbols.toBundle exported importAs, later) := by
  rw [bundleFrom_eq]
  show writeBundle importAs (convertRoot root run).1 (convertRoot root run).2 = _
  rw [converted]
  rfl

/-- **Bundling goes through all its phases**, from any run in which only exports have
been resolved. -/
theorem Run.Exporting.bundleFrom (h : run.Exporting host root) (free : host.HandleFree)
    (importAs : String) :
    ∃ exported later named bundle, FlatBundle.convertRoot root run = (.ok exported, later)
      ∧ later.Converted host root exported
      ∧ later.symbols.namePrivates exported = .ok named
      ∧ later.symbols.NamedFrom exported named
      ∧ (FlatBundle.bundleFrom root importAs run).1 = .ok bundle
      ∧ bundle.Holds (host.sources root) exported importAs named := by
  obtain ⟨exported, later, hconvert, converted⟩ := h.convertRoot
  obtain ⟨named, bundle, hnamed, naming, hbundle, holds⟩ := converted.toBundle free importAs
  refine ⟨exported, later, named, bundle, hconvert, converted, hnamed, naming, ?_, holds⟩
  rw [bundleFrom_of_convertRoot hconvert]
  exact hbundle

/-- A bundling run of a library: what the root exports, the symbol table at the end,
and the bundle. -/
structure BundlesTo (host : Host) (root importAs : String) (exported : List SymbolId)
    (table : SymbolTable) (bundled : Bundle) : Prop where
  table : ∃ run, convertRoot root (Run.start host root) = (.ok exported, run)
    ∧ run.symbols.namePrivates exported = .ok table
  bundle : bundle root importAs host = .ok bundled

/-- A library without handles has a bundling run. -/
theorem Host.HandleFree.bundlesTo (free : host.HandleFree) (root importAs : String) :
    ∃ (exported : List SymbolId) (run : Run) (named : SymbolTable) (bundled : Bundle),
      BundlesTo host root importAs exported named bundled
      ∧ run.Converted host root exported
      ∧ run.symbols.NamedFrom exported named
      ∧ bundled.Holds (host.sources root) exported importAs named := by
  obtain ⟨exported, run, named, bundled, hconvert, converted, hnamed, naming, hbundle, holds⟩ :=
    (Run.exporting_start host root).bundleFrom free importAs
  exact ⟨exported, run, named, bundled, ⟨⟨run, hconvert, hnamed⟩, hbundle⟩, converted, naming,
    holds⟩

/-! ## §4. A small library -/

/-- A root that exports `Square` of `./shapes` as `Box`, and has an entry that refers to
two names of `./shapes`. -/
def indexDocument : Document where
  entries := Entries.ofList
    [("boxes", .arr [.imported "./shapes" "Square", .imported "./shapes" "Circle"])]
  exports := some [⟨"./shapes", some [.renamed "Square" "Box"]⟩]

/-- A module of two declarations, one of which refers to the other. -/
def shapesDocument : Document :=
  Document.ofEntries (Entries.ofList
    [("Square", .arr [.global "Circle"]), ("Circle", .str "round")])

/-- A library of the two. -/
def shapeLibrary : Host :=
  Entries.ofList [("./index", indexDocument), ("./shapes", shapesDocument)]

theorem handleFree_shapeLibrary : shapeLibrary.HandleFree := by decide

/-- The same library in a directory of its own. -/
def sourceLibrary : Host :=
  Entries.ofList [("./src/index", indexDocument), ("./src/shapes", shapesDocument)]

end FlatBundle
