/-
  FlatBundle.Proofs.Export.Tracing
  ────────────────────────────────
  **LINKS LEAD TO ORIGINS.**

  Where no module re-exports from itself, the links of a symbol table say what the
  documents say: a run is `Traced` if every link leads from a name to its origin,
  and every name of a resolved module that has an origin is linked to it.

  While a module is resolved some of its names are `claimed`: those of the entries
  and declarations that have been walked.  A claimed name is linked for good, and a
  name that is claimed now gets its origin because nothing has claimed it before
  (`Tracing.exportAs`).
-/
import FlatBundle.Proofs.Export.Origins
import FlatBundle.Proofs.Export.Resolution

namespace FlatBundle

variable {host : Host} {root : String} {sources : Sources}

/-! ## §1. Traced runs -/

/-- The symbol for one name exports the symbol for the other. -/
def SymbolTable.Links (table : SymbolTable) (target origin : Target) : Prop :=
  ∃ id source, table.key? id = some target ∧ table.key? source = some origin
    ∧ table.exports id = some source

/-- The links of the run are what the documents say. -/
structure Run.Traced (sources : Sources) (run : Run) : Prop where
  links : ∀ target origin, run.symbols.Links target origin → sources.Origin target origin
  origins : ∀ target origin, (run.resolved.get? target.1).isSome →
    sources.Origin target origin → run.symbols.Links target origin
  lists : ∀ module ids, run.resolved.get? module = some ids →
    ∀ name, sources.Exports module name ↔ ∃ id ∈ ids, run.symbols.key? id = some (module, name)

theorem Run.traced_start (sources : Sources) (host : Host) (root : String) :
    (Run.start host root).Traced sources where
  links := by
    intro target origin h
    obtain ⟨id, source, -, -, link⟩ := h
    exact absurd (SymbolTable.lt_size_of_exports link) (Nat.not_lt_zero id)
  origins := by
    intro target origin h
    cases h
  lists := by
    intro module ids h
    cases h

theorem SymbolTable.Links.grows {before after : SymbolTable} (h : before.Grows after)
    {target origin : Target} (link : before.Links target origin) : after.Links target origin := by
  obtain ⟨id, source, key, key', exports⟩ := link
  refine ⟨id, source, h.key?_eq_some key, h.key?_eq_some key', ?_⟩
  rw [h.exports id (lt_size_of_exports exports)]
  exact exports

/-- A run with more symbols but with the same links is traced alike. -/
theorem Run.Traced.of_same_links {run later : Run} (h : run.Traced sources)
    (sound : run.Sound host root) (grows : run.symbols.Grows later.symbols)
    (same : ∀ id, later.symbols.exports id = run.symbols.exports id)
    (resolved : later.resolved = run.resolved) : later.Traced sources where
  links := by
    intro target origin link
    obtain ⟨id, source, key, key', exports⟩ := link
    rw [same] at exports
    -- what is linked was there before, under the same names
    rw [grows.key? id (SymbolTable.lt_size_of_exports exports)] at key
    rw [grows.key? source (sound.linked.lt_size_of_exports exports)] at key'
    exact h.links target origin ⟨id, source, key, key', exports⟩
  origins := by
    intro target origin known step
    rw [resolved] at known
    exact (h.origins target origin known step).grows grows
  lists := by
    intro module ids known name
    rw [resolved] at known
    rw [h.lists module ids known name]
    constructor
    · intro found
      obtain ⟨id, hid, key⟩ := found
      exact ⟨id, hid, grows.key?_eq_some key⟩
    · intro found
      obtain ⟨id, hid, key⟩ := found
      obtain ⟨_, owned⟩ := (sound.lists module ids known).2 id hid
      rw [grows.key? id (SymbolTable.lt_size_of_key? owned)] at key
      exact ⟨id, hid, key⟩

/-- A symbol is looked up or created. -/
theorem Run.Traced.symbolOf {run : Run} (h : run.Traced sources) (sound : run.Sound host root)
    (module name : String) :
    ((Step.symbolOf module name).apply run).Traced sources :=
  h.of_same_links sound (SymbolTable.Extends.symbolOf run.symbols module name).grows
    (run.symbols.exports_symbolOf module name) rfl

/-- **A name is linked to its origin**, if it is not linked there already. -/
theorem Run.Traced.link {run : Run} (h : run.Traced sources) (acyclic : sources.Acyclic)
    (linked : run.symbols.Linked) {exported newName : Nat} {target origin : Target}
    {log : List Step} (hnewName : run.symbols.key? newName = some target)
    (hexported : run.symbols.key? exported = some origin)
    (right : sources.Origin target origin) :
    Run.Traced sources { run with symbols := run.symbols.link exported newName, log := log }
      ∧ (run.symbols.link exported newName).Links target origin
      ∧ ∀ first second, run.symbols.Links first second →
        (run.symbols.link exported newName).Links first second := by
  have keys := run.symbols.key?_link exported newName
  rcases run.symbols.link_cases exported newName with ⟨kept, same⟩ | ⟨ne, free⟩
  · rw [same]
    refine ⟨⟨h.links, h.origins, h.lists⟩, ?_, fun _ _ link => link⟩
    rcases kept with rfl | taken
    · -- a name that is its own origin would be on a cycle
      rw [hnewName] at hexported
      obtain rfl := Option.some.inj hexported
      exact absurd (Relation.TransGen.single right.edge) (acyclic target.1)
    · -- the link that is there leads to the same origin
      obtain ⟨source, link⟩ := Option.isSome_iff_exists.1 taken
      obtain ⟨module, name, key⟩ :=
        SymbolTable.exists_key?_of_lt (linked.lt_size_of_exports link)
      have links : run.symbols.Links target (module, name) := ⟨newName, source, hnewName, key, link⟩
      have there : (module, name) = origin := (h.links target (module, name) links).unique right
      exact there ▸ links
  · have exports := SymbolTable.exports_link ne free (SymbolTable.lt_size_of_key? hnewName)
    have here : (run.symbols.link exported newName).Links target origin := by
      refine ⟨newName, exported, (keys newName).trans hnewName, (keys exported).trans hexported, ?_⟩
      rw [exports, if_pos rfl]
    -- the link goes to a name that had none, so the others are kept
    have kept : ∀ first second, run.symbols.Links first second →
        (run.symbols.link exported newName).Links first second := by
      intro first second link
      obtain ⟨id, source, key, key', hid⟩ := link
      have other : id ≠ newName := by
        intro same
        rw [same, free] at hid
        cases hid
      refine ⟨id, source, (keys id).trans key, (keys source).trans key', ?_⟩
      rw [exports, if_neg other]
      exact hid
    refine ⟨⟨?_, ?_, ?_⟩, here, kept⟩
    · intro first second link
      obtain ⟨id, source, key, key', hid⟩ := link
      replace key := (keys id).symm.trans key
      replace key' := (keys source).symm.trans key'
      replace hid := (exports id).symm.trans hid
      -- the new link is right by assumption, the others were right before
      by_cases same : id = newName
      · rw [if_pos same] at hid
        obtain rfl := Option.some.inj hid
        rw [same, hnewName] at key
        rw [hexported] at key'
        rw [← Option.some.inj key, ← Option.some.inj key']
        exact right
      · rw [if_neg same] at hid
        exact h.links first second ⟨id, source, key, key', hid⟩
    · intro first second known step
      exact kept first second (h.origins first second known step)
    · intro module ids known name
      rw [h.lists module ids known name]
      simp only [keys]

/-! ## §2. The module that is being resolved -/

/-- The state of resolving `module` when some of its names are claimed.  These are the
names of the symbols that it is known to export, and those of them that have an origin
are linked to it. -/
structure Tracing (host : Host) (root : String) (start : Run) (module : String)
    (claimed : String → Prop) (result : List SymbolId) (run : Run) : Prop
    extends Frame host root start module result run where
  traced : run.Traced (host.sources root)
  mem_iff : ∀ name, claimed name ↔ ∃ id ∈ result, run.symbols.key? id = some (module, name)
  origins : ∀ name, claimed name → ∀ origin,
    (host.sources root).Origin (module, name) origin → run.symbols.Links (module, name) origin

/-- `resolveModule` resolves the modules in normal form to which all modules of
`stack` lead, and traces their names. -/
def TracesFrom (host : Host) (root : String) (stack : List String)
    (resolveModule : String → RunM (List SymbolId)) : Prop :=
  ∀ source run, ModulePath.IsNormal source → run.Sound host root → run.inProgress = stack →
    run.Traced (host.sources root) →
    (∀ module ∈ stack, Relation.TransGen (host.sources root).Edge module source) →
    RunM.Ensures (resolveModule source) run fun result later =>
      run.Outcome host root source result later ∧ later.Traced (host.sources root)
        ∧ later.resolved.get? source = some result

namespace Tracing

variable {start run : Run} {module : String} {claimed claimed' : String → Prop}
variable {result : List SymbolId} {resolveModule : String → RunM (List SymbolId)}

theorem congr (h : Tracing host root start module claimed result run)
    (same : ∀ name, claimed' name ↔ claimed name) :
    Tracing host root start module claimed' result run where
  toFrame := h.toFrame
  traced := h.traced
  mem_iff := fun name => (same name).trans (h.mem_iff name)
  origins := fun name hname => h.origins name ((same name).1 hname)

/-- Steps that keep the names and links of all symbols claim nothing. -/
theorem of_frame (h : Tracing host root start module claimed result run) {later : Run}
    (frame : Frame host root start module result later) (grows : run.symbols.Grows later.symbols)
    (traced : later.Traced (host.sources root)) :
    Tracing host root start module claimed result later where
  toFrame := frame
  traced := traced
  mem_iff := by
    intro name
    rw [h.mem_iff name]
    constructor
    · intro found
      obtain ⟨id, hid, key⟩ := found
      exact ⟨id, hid, grows.key?_eq_some key⟩
    · intro found
      obtain ⟨id, hid, key⟩ := found
      obtain ⟨_, owned⟩ := h.owned id hid
      rw [grows.key? id (SymbolTable.lt_size_of_key? owned)] at key
      exact ⟨id, hid, key⟩
  origins := fun name hname origin step => (h.origins name hname origin step).grows grows

/-- It does not matter what the log says. -/
theorem noted (h : Tracing host root start module claimed result run) (log : List Step) :
    Tracing host root start module claimed result { run with log := log } :=
  h.of_frame (h.toFrame.noted log) (SymbolTable.Grows.refl _)
    ⟨h.traced.links, h.traced.origins, h.traced.lists⟩

theorem symbolOf (h : Tracing host root start module claimed result run) {source : String}
    (hsource : run.Knows source) (name : String) :
    RunM.Ensures (RunM.symbolOf source name) run fun id later =>
      Tracing host root start module claimed result later ∧ run.Keeps later
        ∧ later.symbols.key? id = some (source, name) := by
  obtain ⟨frame, keeps, key⟩ := h.toFrame.symbolOf hsource name
  exact ⟨h.of_frame frame (SymbolTable.Extends.symbolOf run.symbols source name).grows
    (h.traced.symbolOf h.sound source name), keeps, key⟩

/-- A name of the module is linked to its origin. -/
theorem link (h : Tracing host root start module claimed result run)
    (acyclic : (host.sources root).Acyclic) {source sourceName name : String}
    (hnormal : ModulePath.IsNormal source) {exported newName : Nat}
    (hexported : run.symbols.key? exported = some (source, sourceName))
    (hnewName : run.symbols.key? newName = some (module, name))
    (right : (host.sources root).Origin (module, name) (source, sourceName)) :
    RunM.Ensures (RunM.link exported newName) run fun _ later =>
      Tracing host root start module claimed result later ∧ run.Keeps later
        ∧ later.symbols.Links (module, name) (source, sourceName) := by
  obtain ⟨frame, keeps⟩ := h.toFrame.link hnormal ⟨sourceName, hexported⟩ ⟨name, hnewName⟩
  obtain ⟨traced, links, kept⟩ :=
    h.traced.link acyclic h.sound.linked hnewName hexported right
  have keys := run.symbols.key?_link exported newName
  refine ⟨⟨frame, traced, ?_, ?_⟩, keeps, links⟩
  · intro other
    rw [h.mem_iff other]
    show _ ↔ ∃ id ∈ result, (run.symbols.link exported newName).key? id = _
    simp only [keys]
  · intro other hother origin step
    exact kept _ _ (h.origins other hother origin step)

/-- Another module is resolved in between. -/
theorem of_outcome (h : Tracing host root start module claimed result run) {source : String}
    {exported : List SymbolId} {later : Run}
    (hout : run.Outcome host root source exported later)
    (traced : later.Traced (host.sources root)) :
    Tracing host root start module claimed result later :=
  h.of_frame (h.toFrame.ofOutcome hout) hout.symbols.grows traced

/-- A name is claimed by a symbol that is new among the exports. -/
theorem push (h : Tracing host root start module claimed result run) {id : SymbolId}
    {name : String} (key : run.symbols.key? id = some (module, name)) (new : id ∉ result)
    (origins : ∀ origin, (host.sources root).Origin (module, name) origin →
      run.symbols.Links (module, name) origin) :
    Tracing host root start module (fun other => claimed other ∨ other = name) (result ++ [id])
      run where
  toFrame := h.toFrame.push ⟨name, key⟩ new
  traced := h.traced
  mem_iff := by
    intro other
    rw [h.mem_iff other]
    constructor
    · intro cases_
      rcases cases_ with ⟨old, hold, hkey⟩ | rfl
      · exact ⟨old, List.mem_append_left _ hold, hkey⟩
      · exact ⟨id, by simp, key⟩
    · intro found
      obtain ⟨old, hold, hkey⟩ := found
      rcases List.mem_append.1 hold with hold | hold
      · exact Or.inl ⟨old, hold, hkey⟩
      · rw [List.mem_singleton.1 hold, key] at hkey
        exact Or.inr (Prod.mk.inj (Option.some.inj hkey)).2.symm
  origins := by
    intro other hother
    -- a claimed name has its link already, and the new one is linked now
    rcases hother with old | rfl
    · exact h.origins other old
    · exact origins

/-- A symbol of the module that is among the exports has claimed its name. -/
theorem claimed_of_mem (h : Tracing host root start module claimed result run) {id : SymbolId}
    {name : String} (key : run.symbols.key? id = some (module, name)) :
    claimed name ↔ id ∈ result := by
  rw [h.mem_iff name]
  constructor
  · intro found
    obtain ⟨other, hother, hkey⟩ := found
    exact SymbolTable.key?_inj hkey key ▸ hother
  · intro hid
    exact ⟨id, hid, key⟩

/-- **A name is exported**: it is linked to its origin, unless it has been claimed. -/
theorem exportAs (h : Tracing host root start module claimed result run)
    (acyclic : (host.sources root).Acyclic) {source sourceName name : String}
    (hnormal : ModulePath.IsNormal source) {symbol : SymbolId}
    (hsymbol : run.symbols.key? symbol = some (source, sourceName))
    (right : ¬ claimed name →
      (host.sources root).Origin (module, name) (source, sourceName)) :
    RunM.Ensures (exportAs module symbol name result) run fun result' later =>
      Tracing host root start module (fun other => claimed other ∨ other = name) result' later
        ∧ run.Keeps later := by
  refine RunM.Ensures.bind (h.symbolOf h.knows_module name) ?_
  intro newName run₁ hstep
  obtain ⟨tracing, keeps, key⟩ := hstep
  have claimed_iff := tracing.claimed_of_mem key
  by_cases taken : newName ∈ result
  · rw [if_pos taken]
    refine RunM.Ensures.pure ⟨tracing.congr fun other => ?_, keeps⟩
    -- the symbol is among the exports, so the name was claimed before
    constructor
    · intro cases_
      rcases cases_ with old | rfl
      · exact old
      · exact claimed_iff.2 taken
    · exact Or.inl
  · rw [if_neg taken]
    -- nothing has claimed the name, so the declaration at hand is its origin
    have step := right fun hclaimed => taken (claimed_iff.1 hclaimed)
    have hsymbol₁ := keeps.key? symbol _ hsymbol
    refine RunM.Ensures.bind (tracing.link acyclic hnormal hsymbol₁ key step) ?_
    intro _ run₂ hlink
    obtain ⟨tracing', keeps', links⟩ := hlink
    have key' := keeps'.key? newName _ key
    refine RunM.Ensures.pure ⟨tracing'.push key' taken ?_, keeps.trans keeps'⟩
    intro other hother
    exact hother.unique step ▸ links

end Tracing

/-! ## §3. Entries and declarations -/

/-- The names of the entries, and those that the declarations walked so far
provide. -/
def claimedBy (sources : Sources) (module : String) (document : Document)
    (walked : List ExportDeclaration) (name : String) : Prop :=
  document.declares name = true ∨ ∃ declaration ∈ walked, sources.Provides module declaration name

theorem exists_mem_concat {α : Type} {p : α → Prop} {items : List α} {last : α} :
    (∃ item ∈ items ++ [last], p item) ↔ (∃ item ∈ items, p item) ∨ p last := by
  simp [or_and_right, exists_or]

theorem get?_eq_none_of_not_declares {document : Document} {name : String}
    (h : ¬ document.declares name = true) : document.get? name = none := by
  cases found : document.get? name with
  | none => rfl
  | some value =>
      exfalso
      apply h
      rw [Document.declares, Entries.contains, show document.entries.get? name = _ from found]
      rfl

/-- A name that nothing before a declaration has claimed comes from where the
declaration takes it. -/
theorem origin_of_takes {module name : String} {document : Document}
    (found : sources module = some document) {before after : List ExportDeclaration}
    {declaration : ExportDeclaration}
    (split : document.declarations = before ++ declaration :: after)
    (new : ¬ claimedBy sources module document before name) {origin : Target}
    (takes : sources.Takes module declaration name origin) :
    sources.Origin (module, name) origin := by
  refine ⟨document, found, ?_⟩
  have absent : document.get? name = none :=
    get?_eq_none_of_not_declares fun declared => new (Or.inl declared)
  rw [absent]
  refine ⟨before, declaration, after, split, ?_, takes⟩
  intro other hother provides
  exact new (Or.inr ⟨other, hother, provides⟩)

namespace Tracing

variable {start run : Run} {module : String} {claimed : String → Prop}
variable {result : List SymbolId} {resolveModule : String → RunM (List SymbolId)}

/-- A module that this one names is resolved.  It is not in progress, since the
modules in progress lead to it. -/
theorem resolve (h : Tracing host root start module claimed result run)
    (hresolve : TracesFrom host root (module :: start.inProgress) resolveModule)
    (ancestors : ∀ other ∈ start.inProgress,
      Relation.TransGen (host.sources root).Edge other module)
    {specifier : String}
    (edge : (host.sources root).Edge module (ModulePath.resolve specifier module)) :
    RunM.Ensures (resolveModule (ModulePath.resolve specifier module)) run fun exported later =>
      Tracing host root start module claimed result later
        ∧ later.Knows (ModulePath.resolve specifier module)
        ∧ (∀ id ∈ exported, later.symbols.BelongsTo (ModulePath.resolve specifier module) id)
        ∧ ∀ name, (host.sources root).Exports (ModulePath.resolve specifier module) name
          ↔ ∃ id ∈ exported,
            later.symbols.key? id = some (ModulePath.resolve specifier module, name) := by
  have hnormal := ModulePath.isNormal_resolve specifier module
  refine (hresolve _ run hnormal h.sound h.stack h.traced ?_).mono ?_
  -- the edge continues every path that leads to this module
  · intro other hother
    rcases List.mem_cons.1 hother with rfl | hother
    · exact Relation.TransGen.single edge
    · exact Relation.TransGen.tail (ancestors other hother) edge
  · intro exported later hstep
    obtain ⟨hout, traced, known⟩ := hstep
    exact ⟨h.of_outcome hout traced, hout.knows, hout.belongsTo, traced.lists _ exported known⟩

/-- **An entry claims its name.** -/
theorem exportEntry (h : Tracing host root start module claimed result run)
    (acyclic : (host.sources root).Acyclic)
    (hresolve : TracesFrom host root (module :: start.inProgress) resolveModule)
    (ancestors : ∀ other ∈ start.inProgress,
      Relation.TransGen (host.sources root).Edge other module)
    {document : Document} (found : host.sources root module = some document)
    {entry : String × Value} (mem : entry ∈ document.entries.toList) :
    RunM.Ensures (exportEntry resolveModule module result entry) run fun result' later =>
      Tracing host root start module (fun name => claimed name ∨ name = entry.1) result' later := by
  have value : document.get? entry.1 = some entry.2 :=
    Pairs.find?_eq_some_of_mem document.entries.nodup mem
  unfold FlatBundle.exportEntry
  split
  · next specifier name arguments refers =>
      -- the entry comes from the module that it refers to
      have right : (host.sources root).Origin (module, entry.1)
          (ModulePath.resolve specifier module, name) := by
        refine ⟨document, found, ?_⟩
        rw [value]
        exact ⟨specifier, name, arguments, refers, rfl⟩
      refine RunM.Ensures.bind (h.resolve hresolve ancestors right.edge) ?_
      intro exported run₁ hstep
      obtain ⟨tracing, knows, -⟩ := hstep
      refine RunM.Ensures.bind (tracing.symbolOf knows name) ?_
      intro symbol run₂ hsymbol
      obtain ⟨tracing', -, key⟩ := hsymbol
      have hnormal := ModulePath.isNormal_resolve specifier module
      exact (tracing'.exportAs acyclic hnormal key fun _ => right).mono fun _ _ => And.left
  · next other =>
      -- the entry is a declaration, which has no other origin
      have none : ∀ origin, ¬ (host.sources root).Origin (module, entry.1) origin := by
        intro origin step
        obtain ⟨document', found', how⟩ := step
        rw [found] at found'
        obtain rfl := Option.some.inj found'
        rw [value] at how
        obtain ⟨specifier, name, arguments, refers, -⟩ := how
        exact other specifier name arguments refers
      refine RunM.Ensures.bind (h.symbolOf h.knows_module entry.1) ?_
      intro symbol run₁ hsymbol
      obtain ⟨tracing, -, key⟩ := hsymbol
      have claimed_iff := tracing.claimed_of_mem key
      by_cases taken : symbol ∈ result
      · rw [if_pos taken]
        refine RunM.Ensures.pure (tracing.congr fun name => ?_)
        constructor
        · intro cases_
          rcases cases_ with old | rfl
          · exact old
          · exact claimed_iff.2 taken
        · exact Or.inl
      · rw [if_neg taken]
        refine RunM.Ensures.pure (tracing.push key taken ?_)
        exact fun origin step => absurd step (none origin)

/-- One item of a declaration claims the name under which it is exported. -/
theorem exportItem (h : Tracing host root start module claimed result run)
    (acyclic : (host.sources root).Acyclic) {source : String}
    (hnormal : ModulePath.IsNormal source) (knows : run.Knows source) {item : ExportItem}
    (right : ¬ claimed item.exportedAs →
      (host.sources root).Origin (module, item.exportedAs) (source, item.name)) :
    RunM.Ensures (exportItem module source result item) run fun result' later =>
      Tracing host root start module (fun name => claimed name ∨ name = item.exportedAs)
          result' later
        ∧ later.Knows source := by
  refine RunM.Ensures.bind (h.symbolOf knows item.name) ?_
  intro symbol run₁ hsymbol
  obtain ⟨tracing, keeps, key⟩ := hsymbol
  refine (tracing.exportAs acyclic hnormal key right).mono ?_
  intro result' run₂ hstep
  obtain ⟨tracing', keeps'⟩ := hstep
  exact ⟨tracing', (keeps.trans keeps').knows (tracing'.stack.trans h.stack.symm) knows⟩

/-- One symbol of another module claims its own name. -/
theorem exportSame (h : Tracing host root start module claimed result run)
    (acyclic : (host.sources root).Acyclic) {source name : String}
    (hnormal : ModulePath.IsNormal source) {symbol : SymbolId}
    (key : run.symbols.key? symbol = some (source, name))
    (right : ¬ claimed name → (host.sources root).Origin (module, name) (source, name)) :
    RunM.Ensures (exportSame module result symbol) run fun result' later =>
      Tracing host root start module (fun other => claimed other ∨ other = name) result' later
        ∧ run.Keeps later := by
  refine RunM.Ensures.bindGet ?_
  obtain ⟨known, hknown, same⟩ := Option.map_eq_some_iff.1 key
  obtain ⟨-, rfl⟩ := Prod.mk.inj same
  rw [hknown]
  exact h.exportAs acyclic hnormal key right

/-- **A declaration claims what it provides**, of the names that have not been
claimed by the entries or by a declaration before it. -/
theorem exportDeclaration {document : Document} {before after : List ExportDeclaration}
    {declaration : ExportDeclaration}
    (h : Tracing host root start module
      (claimedBy (host.sources root) module document before) result run)
    (acyclic : (host.sources root).Acyclic)
    (hresolve : TracesFrom host root (module :: start.inProgress) resolveModule)
    (ancestors : ∀ other ∈ start.inProgress,
      Relation.TransGen (host.sources root).Edge other module)
    (found : host.sources root module = some document)
    (split : document.declarations = before ++ declaration :: after) :
    RunM.Ensures (exportDeclaration resolveModule module result declaration) run
      (Tracing host root start module
        (claimedBy (host.sources root) module document (before ++ [declaration]))) := by
  have hnormal := ModulePath.isNormal_resolve declaration.source module
  have edge : (host.sources root).Edge module (ModulePath.resolve declaration.source module) :=
    ⟨document, found, Or.inr ⟨declaration, by simp [split], rfl⟩⟩
  -- the names claimed afterwards are the old ones and those that the declaration provides
  have claims : ∀ name,
      claimedBy (host.sources root) module document (before ++ [declaration]) name
        ↔ claimedBy (host.sources root) module document before name
          ∨ (host.sources root).Provides module declaration name := by
    intro name
    rw [claimedBy, claimedBy, exists_mem_concat, or_assoc]
  refine RunM.Ensures.bind (h.resolve hresolve ancestors edge) ?_
  intro exported run₁ hstep
  obtain ⟨tracing, knows, owned, lists⟩ := hstep
  cases chosen : declaration.items with
  | some items =>
      refine RunM.Ensures.foldlM (fun walked result' later =>
          Tracing host root start module
              (fun name => claimedBy (host.sources root) module document before name
                ∨ ∃ item ∈ walked, item.exportedAs = name) result' later
            ∧ later.Knows (ModulePath.resolve declaration.source module))
        items ⟨tracing.congr (by simp), knows⟩ ?_ ?_
      -- chosen names: an item counts unless the name is claimed, also by an item before it
      · intro walked item rest acc run₂ cut hinv
        obtain ⟨tracing₂, knows₂⟩ := hinv
        refine (tracing₂.exportItem acyclic hnormal knows₂ ?_).mono ?_
        · intro new
          rw [not_or] at new
          refine origin_of_takes found split new.1 ?_
          rw [Sources.Takes, chosen]
          refine ⟨walked, item, rest, cut, ?_, rfl, rfl⟩
          intro other hother same
          exact new.2 ⟨other, hother, same⟩
        · intro result' run₃ hout
          refine ⟨hout.1.congr fun name => ?_, hout.2⟩
          rw [exists_mem_concat, or_assoc, @eq_comm _ name]
      · intro result' later hinv
        refine hinv.1.congr fun name => ?_
        rw [claims, Sources.Provides, chosen]
  | none =>
      refine RunM.Ensures.foldlM (fun walked result' later =>
          Tracing host root start module
              (fun name => claimedBy (host.sources root) module document before name
                ∨ ∃ id ∈ walked, run₁.symbols.key? id
                  = some (ModulePath.resolve declaration.source module, name)) result' later
            ∧ run₁.Keeps later)
        exported ⟨tracing.congr (by simp), Run.Keeps.refl run₁⟩ ?_ ?_
      -- all names: each symbol of the other module gives the name it has there
      · intro walked symbol rest acc run₂ cut hinv
        obtain ⟨tracing₂, keeps⟩ := hinv
        obtain ⟨name, key⟩ := owned symbol (by simp [cut])
        refine (tracing₂.exportSame acyclic hnormal (keeps.key? symbol _ key) ?_).mono ?_
        · intro new
          rw [not_or] at new
          refine origin_of_takes found split new.1 ?_
          rw [Sources.Takes, chosen]
          exact ⟨(lists name).2 ⟨symbol, by simp [cut], key⟩, rfl⟩
        · intro result' run₃ hout
          refine ⟨hout.1.congr fun other => ?_, keeps.trans hout.2⟩
          rw [exists_mem_concat, or_assoc, key]
          simp [eq_comm]
      · intro result' later hinv
        refine hinv.1.congr fun name => ?_
        rw [claims, Sources.Provides, chosen]
        simp only [lists]

/-- A whole document claims what the module exports. -/
theorem exportDocument (h : Tracing host root start module (fun _ => False) [] run)
    (acyclic : (host.sources root).Acyclic) {answer : Option Document}
    (found : host.sources root module = answer)
    (hresolve : answer.isSome → TracesFrom host root (module :: start.inProgress) resolveModule)
    (ancestors : ∀ other ∈ start.inProgress,
      Relation.TransGen (host.sources root).Edge other module) :
    RunM.Ensures (exportDocument resolveModule module answer) run
      (Tracing host root start module ((host.sources root).Exports module)) := by
  cases answer with
  | none =>
      refine RunM.Ensures.pure (h.congr fun name => ?_)
      simp only [iff_false]
      exact Sources.not_exports found
  | some document =>
      have hresolve := hresolve rfl
      have entries : RunM.Ensures
          (document.entries.toList.foldlM (walkEntry resolveModule module) []) run
          (Tracing host root start module
            (claimedBy (host.sources root) module document [])) := by
        refine RunM.Ensures.foldlM (fun walked =>
            Tracing host root start module fun name => ∃ entry ∈ walked, name = entry.1)
          document.entries.toList (h.congr (by simp)) ?_ ?_
        · intro walked entry rest acc run' cut tracing
          have mem : entry ∈ document.entries.toList := by simp [cut]
          have step := (tracing.noted (.entry module entry.1 :: run'.log)).exportEntry acyclic hresolve
            ancestors found mem
          refine RunM.Ensures.bindPerform (step.mono ?_)
          intro result' later tracing'
          refine tracing'.congr fun name => ?_
          rw [exists_mem_concat]
        · intro acc later tracing
          refine tracing.congr fun name => ?_
          rw [claimedBy, Document.declares, Entries.contains_iff_mem_keys]
          simp [Entries.keys, Pairs.keys]
      refine RunM.Ensures.bind entries ?_
      intro result' run' tracing
      refine RunM.Ensures.foldlM (fun walked => Tracing host root start module
          (claimedBy (host.sources root) module document walked))
        document.declarations tracing ?_ ?_
      · intro walked declaration rest acc later cut tracing'
        exact tracing'.exportDeclaration acyclic hresolve ancestors found cut
      · intro acc later tracing'
        exact tracing'.congr fun name => Sources.exports_iff found

end Tracing

/-! ## §4. Modules -/

/-- A module is entered with no name claimed. -/
theorem Tracing.enter {run : Run} (sound : run.Sound host root)
    (traced : run.Traced (host.sources root)) {module : String}
    (unresolved : run.resolved.get? module = none) (outside : module ∉ run.inProgress) :
    Tracing host root run module (fun _ => False) [] (run.inside module) where
  toFrame := Frame.enter sound unresolved outside
  traced := ⟨traced.links, traced.origins, traced.lists⟩
  mem_iff := by simp
  origins := fun _ claimed => claimed.elim

/-- A module is left when all names that it exports are claimed. -/
theorem Tracing.leave {start run : Run} {module : String} {result : List SymbolId}
    (h : Tracing host root start module ((host.sources root).Exports module) result run) :
    ((Step.leave module result).apply run).Traced (host.sources root) where
  links := h.traced.links
  origins := by
    intro target origin known step
    replace known : ((run.resolved.insert module result).get? target.1).isSome := known
    rw [Entries.get?_insert] at known
    split at known
    -- what is known of the module was proved while it was walked
    · next same =>
        obtain ⟨_, name⟩ := target
        obtain rfl := same
        exact h.origins name step.exports origin step
    · exact h.traced.origins target origin known step
  lists := by
    intro other ids known name
    replace known : (run.resolved.insert module result).get? other = some ids := known
    rw [Entries.get?_insert] at known
    split at known
    · next same =>
        obtain rfl := same
        rw [← Option.some.inj known]
        exact h.mem_iff name
    · exact h.traced.lists other ids known name

/-- **Resolving a module traces its names**, where the modules that it names can be
traced. -/
theorem traces_exportModule {resolveModule : String → RunM (List SymbolId)} {module : String}
    {run : Run} (acyclic : (host.sources root).Acyclic) (sound : run.Sound host root)
    (traced : run.Traced (host.sources root))
    (ancestors : ∀ other ∈ run.inProgress,
      Relation.TransGen (host.sources root).Edge other module)
    (hresolve : (host.sources root module).isSome →
      TracesFrom host root (module :: run.inProgress) resolveModule) :
    RunM.Ensures (exportModule resolveModule module) run fun result later =>
      later.Traced (host.sources root) ∧ later.resolved.get? module = some result := by
  -- a module in progress that names itself again would be a cycle
  have outside : module ∉ run.inProgress :=
    fun entered => acyclic module (ancestors module entered)
  refine RunM.Ensures.exportModule sound.reads (fun result known => ⟨traced, known⟩)
    (fun _ entered => absurd entered outside) fun unresolved _ => ?_
  have walked := (Tracing.enter sound traced unresolved outside).exportDocument acyclic rfl hresolve
    ancestors
  refine walked.mono fun result later tracing => ⟨tracing.leave, ?_⟩
  show (later.resolved.insert module result).get? module = some result
  rw [Entries.get?_insert, if_pos rfl]

/-- Names are traced as deep as there are documents left. -/
theorem tracesFrom_exportNested (acyclic : (host.sources root).Acyclic) (depth : Nat)
    (stack : List String) (enough : (openDocuments host root stack).length < depth) :
    TracesFrom host root stack (exportNested depth) := by
  induction depth generalizing stack with
  | zero => exact absurd enough (Nat.not_lt_zero _)
  | succ depth ih =>
      intro source run hnormal sound hstack traced ancestors
      subst hstack
      have outcome := resolvesFrom_exportNested (depth + 1) run.inProgress enough source run hnormal
        sound rfl
      refine outcome.and (traces_exportModule acyclic sound traced ancestors fun hdocument => ?_)
      -- entering a module that is entered would close a cycle
      have outside : source ∉ run.inProgress :=
        fun entered => acyclic source (ancestors source entered)
      have taken := length_openDocuments_cons_lt hnormal hdocument outside
      exact ih (source :: run.inProgress) (by omega)

/-- **The exports of any module are resolved and its names are traced**, whatever has
been resolved before. -/
theorem traces_exportAll {run : Run} (sound : run.Sound host root) (idle : run.inProgress = [])
    (traced : (host.sources root).Acyclic → run.Traced (host.sources root)) (module : String) :
    RunM.Ensures (exportAll module) run fun result later =>
      run.Outcome host root module result later
        ∧ ((host.sources root).Acyclic → later.Traced (host.sources root)) := by
  refine (ensures_exportAll sound module).and fun acyclic => ?_
  suffices RunM.Ensures (exportAll module) run fun _ later => later.Traced (host.sources root) from
    this
  refine RunM.Ensures.bindGet ?_
  rw [sound.host_eq]
  refine (traces_exportModule acyclic sound (traced acyclic) (by simp [idle]) ?_).mono
    fun _ _ => And.left
  intro _
  apply tracesFrom_exportNested acyclic
  have bound := length_openDocuments_le host root (module :: run.inProgress)
  omega

end FlatBundle
