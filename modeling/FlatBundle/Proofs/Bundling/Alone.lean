/-
  FlatBundle.Proofs.Bundling.Alone
  ────────────────────────────────
  **A MODULE THAT STANDS ALONE IS BUNDLED AS IT IS.**

  A document stands alone if it has no export declarations, no entry under a reserved name or
  for the symbol of another module, and values that conversion gives back
  (`Document.StandsAlone`).  The bundle of such a root has the document's entries, in the
  document's order.  The argument has three parts:

    • the symbols of the root are created in the order of its entries, and nothing else is
      exported (`Document.StandsAlone.ensures_exportAll`),
    • a value that stays needs symbols of its own module only, so the symbols of the bundle
      are those of the entries (`Run.ConvertedAlone.isReferenced_iff`),
    • each of them has its own name in the bundle, so each reference is replaced by itself
      (`Run.ConvertedAlone.entryOf?_eq`).
-/
import FlatBundle.Proofs.Bundling.History
import FlatBundle.Proofs.Bundling.References
import FlatBundle.Proofs.Export.Listing
import FlatBundle.Proofs.Value.Staying
import Mathlib.Data.List.Sort

namespace FlatBundle

variable {root : String} {document : Document} {exported : List SymbolId}

/-! ## §1. One document -/

/-- The library of one document, that of the root. -/
def Host.single (root : String) (document : Document) : Host :=
  Entries.ofList [(ModulePath.resolve (rootModule root) root, document)]

/-- The document has nothing in it that bundling changes. -/
structure Document.StandsAlone (document : Document) : Prop where
  handleFree : document.HandleFree
  declarations : document.declarations = []
  /-- No entry is a reference to the symbol of another module. -/
  own : ∀ entry ∈ document.entries.toList, ∀ specifier name arguments,
    entry.2.reference? ≠ some (.imported specifier name arguments)
  unreserved : ∀ entry ∈ document.entries.toList, isReservedName entry.1 = false
  stays : ∀ entry ∈ document.entries.toList,
    entry.2.Everywhere (Value.Stays document.declares)

theorem isRelative_rootModule (root : String) : ModulePath.isRelative (rootModule root) = true := by
  simp [ModulePath.isRelative, rootModule]

/-- The one document is the root's. -/
theorem Host.sources_single_root (root : String) (document : Document) :
    (Host.single root document).sources root (rootModule root) = some document := by
  rw [Host.sources, if_pos (isRelative_rootModule root)]
  exact if_pos rfl

theorem declares_single_root (root : String) :
    ((Host.single root document).sources root).declares (rootModule root) = document.declares := by
  funext name
  rw [Sources.declares, Host.sources_single_root]
  rfl

/-- No other document is found under any name. -/
theorem Host.eq_of_sources_single {module : String} {other : Document}
    (found : (Host.single root document).sources root module = some other) : other = document := by
  rw [Host.sources, if_pos (Host.isRelative_of_sources found)] at found
  have mem : (_, other) ∈ [(ModulePath.resolve (rootModule root) root, document)] :=
    Pairs.mem_of_find?_eq_some found
  exact (Prod.mk.inj (List.mem_singleton.1 mem)).2

theorem Document.HandleFree.single (free : document.HandleFree) (root : String) :
    (Host.single root document).HandleFree := by
  intro entry mem
  rw [List.mem_singleton.1 (show entry ∈ [(_, document)] from mem)]
  exact free

namespace Document.StandsAlone

variable (alone : document.StandsAlone)

include alone

/-- The document names no other module. -/
theorem not_edge (root module source : String) :
    ¬ ((Host.single root document).sources root).Edge module source := by
  rintro ⟨other, found, edge⟩
  obtain rfl := Host.eq_of_sources_single found
  rcases edge with ⟨entry, mem, specifier, name, arguments, refers, -⟩ | ⟨declaration, mem, -⟩
  · exact alone.own entry mem specifier name arguments refers
  · rw [alone.declarations] at mem
    exact absurd mem List.not_mem_nil

theorem acyclic (root : String) : ((Host.single root document).sources root).Acyclic := by
  intro module cycle
  obtain ⟨source, edge, -⟩ := Relation.TransGen.head'_iff.1 cycle
  exact alone.not_edge root module source edge

/-- The value of an entry is found under its name. -/
theorem value?_root (root : String) {entry : String × Value}
    (mem : entry ∈ document.entries.toList) :
    ((Host.single root document).sources root).value? (rootModule root, entry.1)
      = some entry.2 := by
  rw [Sources.value?, if_neg (by simp [alone.unreserved entry mem]),
    Host.sources_single_root, Option.bind_some]
  exact Pairs.find?_eq_some_of_mem document.entries.nodup mem

end Document.StandsAlone

/-! ## §2. Exports -/

/-- The symbols of the run are those for some names of the module, in order. -/
structure Run.Enumerates (module : String) (names : List String) (run : Run) : Prop where
  size : run.symbols.size = names.length
  spells : run.symbols.Spells module (List.range names.length) names

/-- A new name of the module takes the next number. -/
theorem Run.Enumerates.symbolOf {run : Run} {module name : String} {names : List String}
    (h : run.Enumerates module names) (new : name ∉ names) :
    RunM.Ensures (RunM.symbolOf module name) run fun id later =>
      id = names.length ∧ later.Enumerates module (names ++ [name]) := by
  have absent : run.symbols.lookup module name = none := by
    rw [Option.eq_none_iff_forall_not_mem]
    intro id found
    have key := (run.symbols.lookup_eq_some_iff_key? module name id).1 found
    have bound := SymbolTable.lt_size_of_key? key
    rw [h.size] at bound
    exact new ((h.spells.mem_iff key).1 (List.mem_range.2 bound))
  have grows := (SymbolTable.Extends.symbolOf run.symbols module name).grows
  have key := run.symbols.key?_symbolOf module name
  have created := SymbolTable.symbolOf_of_lookup_eq_none absent
  rw [created] at grows key
  have symbols : ((Step.symbolOf module name).apply run).symbols
      = run.symbols.push module name absent :=
    congrArg Prod.snd created
  refine ⟨(congrArg Prod.fst created).trans h.size, ?_, ?_⟩
  · show ((Step.symbolOf module name).apply run).symbols.size = (names ++ [name]).length
    rw [symbols, List.length_append, ← h.size]
    exact Array.size_push _
  · show ((Step.symbolOf module name).apply run).symbols.Spells module _ (names ++ [name])
    rw [symbols, List.length_append, List.length_singleton, List.range_succ]
    exact (h.spells.grows grows).concat (h.size ▸ key)

/-- Entries that are no references to other modules are exported in order. -/
theorem ensures_exportEntries {module : String} {run : Run} (entries : Entries Value)
    (resolveModule : String → RunM (List SymbolId)) (start : run.Enumerates module [])
    (own : ∀ entry ∈ entries.toList, ∀ specifier name arguments,
      entry.2.reference? ≠ some (.imported specifier name arguments)) :
    RunM.Ensures (entries.toList.foldlM (walkEntry resolveModule module) []) run
      fun result later => result = List.range entries.size
        ∧ later.Enumerates module entries.keys := by
  refine RunM.Ensures.foldlM (fun walked result later =>
      result = List.range walked.length ∧ later.Enumerates module (Pairs.keys walked))
    entries.toList ⟨rfl, start⟩ ?_ fun _ _ => id
  rintro walked entry rest acc later cut ⟨rfl, enumerates⟩
  have new : entry.1 ∉ Pairs.keys walked := by
    have nodup := entries.nodup
    rw [cut] at nodup
    intro old
    simp only [Pairs.keys, List.map_append, List.map_cons] at nodup old
    exact (List.nodup_append.1 nodup).2.2 _ old _ List.mem_cons_self rfl
  -- the walk over the entry is noted
  have noted : ((Step.entry module entry.1).apply later).Enumerates module (Pairs.keys walked) :=
    ⟨enumerates.size, enumerates.spells⟩
  refine RunM.Ensures.bindPerform ?_
  unfold exportEntry
  split
  · next refers => exact absurd refers (own entry (by simp [cut]) _ _ _)
  · refine RunM.Ensures.bind (noted.symbolOf new) ?_
    rintro id final ⟨rfl, enumerates'⟩
    have length : (Pairs.keys walked).length = walked.length := List.length_map Prod.fst
    refine RunM.Ensures.pure ⟨?_, ?_⟩
    · rw [length, if_neg (by simp), List.length_append, List.length_singleton, List.range_succ]
    · rw [Pairs.keys, List.map_append]
      exact enumerates'

/-- **The exports of a root that stands alone are its entries**, numbered in order. -/
theorem Document.StandsAlone.ensures_exportAll (alone : document.StandsAlone) (root : String) :
    RunM.Ensures (exportAll (rootModule root)) (Run.start (Host.single root document) root)
      fun result later => result = List.range document.entries.size
        ∧ later.symbols.Spells (rootModule root) result document.entries.keys := by
  have reads : (Run.start (Host.single root document) root).Reads (Host.single root document) root :=
    ⟨rfl, rfl, Store.faithful_new (Host.single root document) root⟩
  have inside : ((Run.start (Host.single root document) root).inside (rootModule root)).Enumerates
      (rootModule root) [] :=
    ⟨rfl, rfl⟩
  -- the root is not known yet, so its document is walked
  refine RunM.Ensures.bindGet (RunM.Ensures.exportModule reads (fun _ known => ?_)
    (fun _ entered => ?_) fun _ _ => ?_)
  · cases known
  · cases entered
  · rw [Host.sources_single_root]
    refine RunM.Ensures.bind (ensures_exportEntries document.entries _ inside alone.own) ?_
    rw [alone.declarations]
    rintro _ later ⟨rfl, enumerates⟩
    -- leaving the module changes no symbol
    have length : document.entries.keys.length = document.entries.size := List.length_map Prod.fst
    exact RunM.Ensures.pure ⟨rfl, length ▸ enumerates.spells⟩

/-- The exports that are converted are those that the root starts with, and their symbols
are kept. -/
theorem Run.Converted.exports_eq {host : Host} {run later : Run}
    (converted : later.Converted host root exported) (h : run.Exporting host root)
    (converts : convertRoot root run = (.ok exported, later)) :
    RunM.Ensures (exportAll (rootModule root)) run fun result middle =>
      exported = result ∧ middle.symbols.Accrues later.symbols := by
  obtain ⟨exporting, known⟩ := h.askExports (rootModule root)
  have bounded : ∀ id ∈ (askExports (rootModule root) run).1,
      id < (askExports (rootModule root) run).2.symbols.size := by
    intro id hid
    obtain ⟨name, key⟩ := (exporting.sound.lists _ _ known).2 id hid
    exact SymbolTable.lt_size_of_key? key
  obtain ⟨steps, performs, -, -, roots⟩ := exists_performs_convertFrom exporting.idle bounded
  have last : (askExports (rootModule root) run).2.after steps = later := by
    rw [← performs.after]
    exact congrArg Prod.snd (converts : convertFrom _ _ = _)
  have kept := ((askExports (rootModule root) run).2.accrues_after steps).symbols
  rw [last] at roots kept
  exact ⟨converted.settled.rootExports.symm.trans roots, kept⟩

/-! ## §3. Symbols -/

/-- A converted run of a root that stands alone: what is exported are the entries. -/
structure Run.ConvertedAlone (root : String) (document : Document) (exported : List SymbolId)
    (run : Run) : Prop
    extends Run.Converted (Host.single root document) root exported run where
  ids : exported = List.range document.entries.size
  spells : run.symbols.Spells (rootModule root) exported document.entries.keys

namespace Run.ConvertedAlone

variable {run : Run} {named : SymbolTable}
variable (h : run.ConvertedAlone root document exported) (alone : document.StandsAlone)

include h

/-- The name of an exported symbol is that of an entry. -/
theorem exists_entry {id : SymbolId} {module name : String} (hid : id ∈ exported)
    (key : run.symbols.key? id = some (module, name)) :
    module = rootModule root ∧ ∃ value, (name, value) ∈ document.entries.toList := by
  obtain ⟨other, key'⟩ := h.spells.exists_key hid
  obtain ⟨rfl, rfl⟩ := Prod.mk.inj (Option.some.inj (key.symm.trans key'))
  obtain ⟨entry, mem, rfl⟩ := List.mem_map.1 ((h.spells.mem_iff key).1 hid)
  exact ⟨rfl, entry.2, mem⟩

/-- A declared name has a symbol that is exported. -/
theorem exists_exported {name : String} (declared : document.declares name = true) :
    ∃ id ∈ exported, run.symbols.key? id = some (rootModule root, name) := by
  obtain ⟨value, found⟩ := Option.isSome_iff_exists.1 declared
  exact h.spells.exists_of_mem (List.mem_map_of_mem (f := Prod.fst)
    (Pairs.mem_of_find?_eq_some found))

/-- The symbols of exports are their own identities. -/
theorem symbol_eq {id : SymbolId} (hid : id ∈ exported) :
    (run.symbols.canonicalize exported id).symbol = id := by
  rw [SymbolTable.canonicalize_root hid (h.settled.lt_size id hid)]

include alone

/-- No symbol exports another one, so it is its own declaration. -/
theorem origin?_eq (id : SymbolId) : run.symbols.origin? id = run.symbols.key? id := by
  have stop : run.symbols.exports id = none := by
    rw [Option.eq_none_iff_forall_not_mem]
    intro source link
    obtain ⟨module, name, key⟩ :=
      SymbolTable.exists_key?_of_lt (SymbolTable.lt_size_of_exports link)
    obtain ⟨module', name', key'⟩ :=
      SymbolTable.exists_key?_of_lt (h.settled.sound.linked.lt_size_of_exports link)
    have origin := (h.settled.traced (alone.acyclic root)).links (module, name) (module', name')
      ⟨id, source, key, key', link⟩
    exact alone.not_edge root module module' origin.edge
  rw [SymbolTable.origin?, SymbolTable.declaration_of_exports_eq_none stop]

/-- The symbol of an entry stands for the value of the entry. -/
theorem declared?_eq {id : SymbolId} {entry : String × Value}
    (mem : entry ∈ document.entries.toList)
    (key : run.symbols.key? id = some (rootModule root, entry.1)) :
    run.symbols.declared? ((Host.single root document).sources root) id
      = some (rootModule root, entry.2) := by
  rw [SymbolTable.declared?, h.origin?_eq alone, key, Option.bind_some, alone.value?_root root mem]
  rfl

/-- What the value of an exported symbol needs is exported. -/
theorem mem_of_needs {id other : SymbolId} (hid : id ∈ exported)
    (needs : run.symbols.Needs ((Host.single root document).sources root) exported id other) :
    other ∈ exported := by
  obtain ⟨module, value, declared, target, met, needed⟩ := needs
  obtain ⟨name, key⟩ := h.settled.owned id hid
  obtain ⟨-, value', mem⟩ := h.exists_entry hid key
  rw [h.declared?_eq alone mem key] at declared
  obtain ⟨rfl, rfl⟩ := Prod.mk.inj (Option.some.inj declared)
  have stays := alone.stays _ mem
  rw [← declares_single_root root] at stays
  obtain ⟨here, declares⟩ := stays.own_of_mem_targets target met
  rw [declares_single_root] at declares
  -- the name of the target has one symbol, which is its own identity
  obtain ⟨first, hfirst, key'⟩ := h.exists_exported declares
  obtain ⟨second, origin, key'', -, -, rfl⟩ := SymbolTable.exists_of_needed? needed
  rw [show target = (rootModule root, target.2) from Prod.ext here rfl] at key''
  obtain rfl := SymbolTable.key?_inj key' key''
  rw [h.symbol_eq hfirst]
  exact hfirst

/-- **The symbols of the bundle are those of the entries.** -/
theorem isReferenced_iff (id : SymbolId) : run.symbols.isReferenced id = true ↔ id ∈ exported := by
  constructor
  · intro hid
    obtain ⟨first, hfirst, chain⟩ := h.needed id hid
    clear hid
    induction chain with
    | refl => exact hfirst
    | tail _ needs ih => exact h.mem_of_needs alone ih needs
  · exact h.roots id

theorem referenced_eq : run.symbols.referenced = exported := by
  have sorted : exported.Pairwise (· < ·) := h.ids ▸ List.pairwise_lt_range
  refine (List.pairwise_lt_range.filter _).eq_of_mem_iff sorted fun id => ?_
  exact SymbolTable.mem_referenced.trans (h.isReferenced_iff alone id)

variable (naming : run.symbols.NamedFrom exported named)

include naming

/-- A name of the root stays as it is. -/
theorem pointer_eq {name : String} (declared : document.declares name = true) :
    named.pointer exported (rootModule root, name) = .global name := by
  obtain ⟨id, hid, key⟩ := h.exists_exported declared
  rw [SymbolTable.pointer, naming.replacement h.settled,
    SymbolTable.replacement_eq _ key ((h.origin?_eq alone id).trans key),
    if_pos (isRelative_rootModule root), h.symbol_eq hid, h.bundleName_of_mem naming hid key]

/-- **The entry of a symbol is the entry of its name.** -/
theorem entryOf?_eq {id : SymbolId} {entry : String × Value} (hid : id ∈ exported)
    (mem : entry ∈ document.entries.toList)
    (key : run.symbols.key? id = some (rootModule root, entry.1)) :
    named.entryOf? ((Host.single root document).sources root) exported id = some entry := by
  have stays := alone.stays _ mem
  rw [← declares_single_root root] at stays
  have own : ∀ name, ((Host.single root document).sources root).declares (rootModule root) name
      = true → named.pointer exported (rootModule root, name) = .global name := by
    intro name declared
    rw [declares_single_root] at declared
    exact h.pointer_eq alone naming declared
  have same := stays.rewrite_eq_self own
  rw [SymbolTable.entryOf?, SymbolTable.final?, naming.declared? h.settled _ (h.roots id hid),
    h.declared?_eq alone mem key, Option.map_some, Option.map_some, same,
    h.bundleName_of_mem naming hid key]

end Run.ConvertedAlone

/-! ## §4. The bundle -/

/-- Lists of symbols and entries with the same names, where each symbol has the entry of its
name. -/
theorem filterMap_eq_of_map_eq {α β γ : Type} {name : α → γ} {name' : β → γ} {entry : α → Option β}
    {ids : List α} {entries : List β} (same : ids.map name = entries.map name')
    (h : ∀ id ∈ ids, ∀ b ∈ entries, name id = name' b → entry id = some b) :
    ids.filterMap entry = entries := by
  induction ids generalizing entries with
  | nil => exact (List.map_eq_nil_iff.1 same.symm).symm
  | cons id ids ih =>
      cases entries with
      | nil => cases same
      | cons b entries =>
          obtain ⟨first, rest⟩ := List.cons.inj same
          rw [List.filterMap_cons_some (h id List.mem_cons_self b List.mem_cons_self first),
            ih rest fun other hother c hc =>
              h other (List.mem_cons_of_mem _ hother) c (List.mem_cons_of_mem _ hc)]

/-- **A root that stands alone is bundled as it is**: the bundle has the same entries in the
same order, and no private names. -/
theorem bundle_single (alone : document.StandsAlone) (root importAs : String) :
    ∃ bundled, bundle root importAs (Host.single root document) = .ok bundled
      ∧ bundled.document.entries = document.entries ∧ bundled.privates = [] := by
  let start := Run.start (Host.single root document) root
  obtain ⟨exported, run, named, bundle, convert, converted, -, naming, succeeds, holds⟩ :=
    (Run.exporting_start (Host.single root document) root).bundleFrom
      (alone.handleFree.single root) importAs
  obtain ⟨ids, spells⟩ := alone.ensures_exportAll root
  obtain ⟨same, kept⟩ := converted.exports_eq (Run.exporting_start _ root) convert
  have h : run.ConvertedAlone root document exported :=
    ⟨converted, same.trans ids, same ▸ spells.of_keys fun _ _ => kept.key?⟩
  have referenced : named.referenced = exported :=
    naming.same.referenced.trans (h.referenced_eq alone)
  refine ⟨bundle, succeeds, Entries.eq_of_toList ?_, ?_⟩
  · have names : exported.map run.symbols.key?
        = document.entries.toList.map fun entry => some (rootModule root, entry.1) := by
      rw [h.spells, Entries.keys, Pairs.keys, List.map_map]
      rfl
    rw [holds.entries, referenced]
    exact filterMap_eq_of_map_eq names fun id hid entry mem key =>
      h.entryOf?_eq alone naming hid mem key
  · -- exports are public
    rw [holds.privates, referenced, List.filter_eq_nil_iff.2, List.map_nil]
    intro id hid
    have bound := converted.settled.lt_size id hid
    rw [SymbolTable.isPrivate, naming.canonicalize converted.settled bound,
      SymbolTable.canonicalize_root hid bound]
    exact Bool.false_ne_true

/-- A document of two entries that refer to themselves and to each other. -/
def circleDocument : Document :=
  Document.ofEntries (Entries.ofList
    [("Even", .obj [("next", .global "Odd"), ("self", .global "Even")]),
      ("Odd", .arr [.str "odd", .global "Even", .global "window"])])

theorem standsAlone_circleDocument : circleDocument.StandsAlone := by
  have text : ∀ word, (Value.str word).Everywhere (Value.Stays circleDocument.declares) :=
    fun word => .intro trivial (List.forall_mem_nil _)
  have plain : ∀ name, (Value.global name).Everywhere (Value.Stays circleDocument.declares) :=
    fun name => .intro (fun _ => rfl) (List.forall_mem_nil _)
  refine ⟨by decide, rfl, ?_, by decide, ?_⟩
  · intro entry mem
    rcases List.mem_pair.1 mem with rfl | rfl <;> exact fun _ _ _ => nofun
  · intro entry mem
    rcases List.mem_pair.1 mem with rfl | rfl
    · refine .intro trivial ?_
      simp [Value.children, plain]
    · refine .intro trivial ?_
      simp [Value.children, plain, text]

theorem bundle_single_circleDocument :
    circleDocument.StandsAlone
      ∧ ∃ bundled, bundle "./circle" "circle" (Host.single "./circle" circleDocument) = .ok bundled
        ∧ bundled.document.entries = circleDocument.entries ∧ bundled.privates = [] :=
  ⟨standsAlone_circleDocument, bundle_single standsAlone_circleDocument "./circle" "circle"⟩

end FlatBundle
