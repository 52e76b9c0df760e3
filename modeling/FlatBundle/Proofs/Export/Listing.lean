/-
  FlatBundle.Proofs.Export.Listing
  ────────────────────────────────
  **THE EXPORTS OF A MODULE ARE ITS CLAIMS, IN ORDER.**

  A run is `Listed` if the exports of every resolved module are the symbols for the
  names that its document claims, each at its first claim.  This holds of any library:
  where modules re-export from each other in a circle, a declaration that exports all of
  a module in progress is passed over, and such a declaration leads back to the module
  that it stands in (`Sources.LeadsBack`).

  The proof keeps beside the exports of a module the claims that have been walked so far
  (`Listing`).  A new claim adds the symbol for its name, unless the name is claimed
  already (`Listing.exportAs`), and each step of the walk is a step of the relation
  `Sources.DeclarationClaims`.
-/
import FlatBundle.Proofs.Export.Claims
import FlatBundle.Proofs.Export.Resolution

namespace FlatBundle

variable {host : Host} {root : String}

/-! ## §1. Listed runs -/

/-- The other module is, or leads to, the first one. -/
def Sources.LeadsBack (sources : Sources) (module source : String) : Prop :=
  Relation.ReflTransGen sources.Edge source module

/-- The symbols are those for some names of a module, in order. -/
def SymbolTable.Spells (table : SymbolTable) (module : String) (ids : List SymbolId)
    (names : List String) : Prop :=
  ids.map table.key? = names.map fun name => some (module, name)

/-- The exports of resolved modules are what the modules claim. -/
def Run.Listed (sources : Sources) (run : Run) : Prop :=
  ∀ module ids, run.resolved.get? module = some ids →
    ∃ claims, sources.Claims sources.LeadsBack module claims
      ∧ run.symbols.Spells module ids (claimedNames claims)

theorem Run.listed_start (sources : Sources) (host : Host) (root : String) :
    (Run.start host root).Listed sources := by
  intro module ids h
  cases h

namespace SymbolTable.Spells

variable {table later : SymbolTable} {module : String} {ids : List SymbolId} {names : List String}

/-- Each of the names has a symbol. -/
theorem exists_of_mem (h : table.Spells module ids names) {name : String} (hname : name ∈ names) :
    ∃ id ∈ ids, table.key? id = some (module, name) := by
  have mem : some (module, name) ∈ ids.map table.key? :=
    h ▸ List.mem_map_of_mem (f := fun name => some (module, name)) hname
  obtain ⟨id, hid, key⟩ := List.mem_map.1 mem
  exact ⟨id, hid, key⟩

/-- Each of the symbols has a name. -/
theorem exists_key (h : table.Spells module ids names) {id : SymbolId} (hid : id ∈ ids) :
    ∃ name, table.key? id = some (module, name) := by
  have mem : table.key? id ∈ names.map fun name => some (module, name) :=
    h ▸ List.mem_map_of_mem hid
  obtain ⟨name, -, same⟩ := List.mem_map.1 mem
  exact ⟨name, same.symm⟩

/-- The symbols that are listed are those of the names. -/
theorem mem_iff (h : table.Spells module ids names) {id : SymbolId} {name : String}
    (key : table.key? id = some (module, name)) : id ∈ ids ↔ name ∈ names := by
  constructor
  · intro hid
    have mem : some (module, name) ∈ names.map fun name => some (module, name) :=
      h ▸ key ▸ List.mem_map_of_mem hid
    obtain ⟨other, hother, same⟩ := List.mem_map.1 mem
    rw [(Prod.mk.inj (Option.some.inj same)).2] at hother
    exact hother
  · intro hname
    obtain ⟨other, hother, same⟩ := h.exists_of_mem hname
    exact SymbolTable.key?_inj same key ▸ hother

/-- A table in which the symbols keep their names lists the same. -/
theorem of_keys (h : table.Spells module ids names)
    (keys : ∀ id key, table.key? id = some key → later.key? id = some key) :
    later.Spells module ids names := by
  have same : ids.map later.key? = ids.map table.key? := by
    apply List.map_congr_left
    intro id hid
    obtain ⟨name, key⟩ := h.exists_key hid
    rw [key, keys id _ key]
  exact same.trans h

theorem grows (h : table.Spells module ids names) (grows : table.Grows later) :
    later.Spells module ids names :=
  h.of_keys fun _ _ => grows.key?_eq_some

theorem concat (h : table.Spells module ids names) {id : SymbolId} {name : String}
    (key : table.key? id = some (module, name)) :
    table.Spells module (ids ++ [id]) (names ++ [name]) := by
  unfold Spells at h ⊢
  rw [List.map_append, List.map_append, h]
  simp [key]

end SymbolTable.Spells

/-- What is listed stays listed while symbols are added. -/
theorem Run.Listed.grows {sources : Sources} {run later : Run} (h : run.Listed sources)
    (grows : run.symbols.Grows later.symbols) (resolved : later.resolved = run.resolved) :
    later.Listed sources := by
  intro module ids known
  rw [resolved] at known
  obtain ⟨claims, hclaims, spells⟩ := h module ids known
  exact ⟨claims, hclaims, spells.grows grows⟩

/-! ## §2. The module that is being resolved -/

/-- The state of resolving `module` when some claims of its document have been walked. -/
structure Listing (host : Host) (root : String) (start : Run) (module : String)
    (claims : List Claim) (result : List SymbolId) (run : Run) : Prop
    extends Frame host root start module result run where
  listed : run.Listed (host.sources root)
  spells : run.symbols.Spells module result (claimedNames claims)

/-- `resolveModule` resolves the modules in normal form to which all modules of `stack`
lead, and lists what they claim. -/
def ListsFrom (host : Host) (root : String) (stack : List String)
    (resolveModule : String → RunM (List SymbolId)) : Prop :=
  ∀ source run, ModulePath.IsNormal source → run.Sound host root → run.inProgress = stack →
    run.Listed (host.sources root) →
    (∀ module ∈ stack, Relation.TransGen (host.sources root).Edge module source) →
    RunM.Ensures (resolveModule source) run fun result later =>
      run.Outcome host root source result later ∧ later.Listed (host.sources root)

namespace Listing

variable {start run : Run} {module : String} {claims : List Claim}
variable {result : List SymbolId} {resolveModule : String → RunM (List SymbolId)}

/-- Steps that add symbols and links only walk no claim. -/
theorem of_frame (h : Listing host root start module claims result run) {later : Run}
    (frame : Frame host root start module result later) (grows : run.symbols.Grows later.symbols)
    (listed : later.Listed (host.sources root)) :
    Listing host root start module claims result later where
  toFrame := frame
  listed := listed
  spells := h.spells.grows grows

/-- It does not matter what the log says. -/
theorem noted (h : Listing host root start module claims result run) (log : List Step) :
    Listing host root start module claims result { run with log := log } :=
  h.of_frame (h.toFrame.noted log) (SymbolTable.Grows.refl _) h.listed

theorem symbolOf (h : Listing host root start module claims result run) {source : String}
    (hsource : run.Knows source) (name : String) :
    RunM.Ensures (RunM.symbolOf source name) run fun id later =>
      Listing host root start module claims result later ∧ run.Keeps later
        ∧ later.symbols.key? id = some (source, name) := by
  obtain ⟨frame, keeps, key⟩ := h.toFrame.symbolOf hsource name
  have grows := (SymbolTable.Extends.symbolOf run.symbols source name).grows
  exact ⟨h.of_frame frame grows (h.listed.grows grows rfl), keeps, key⟩

theorem link (h : Listing host root start module claims result run) {source : String}
    (hnormal : ModulePath.IsNormal source) {exported newName : SymbolId}
    (hexported : run.symbols.BelongsTo source exported)
    (hnewName : run.symbols.BelongsTo module newName) :
    RunM.Ensures (RunM.link exported newName) run fun _ later =>
      Listing host root start module claims result later ∧ run.Keeps later := by
  obtain ⟨frame, keeps⟩ := h.toFrame.link hnormal hexported hnewName
  have keys := run.symbols.key?_link exported newName
  -- a link changes no name, so what is spelled stays spelled
  refine ⟨⟨frame, ?_, ?_⟩, keeps⟩
  · intro other ids known
    obtain ⟨claims', hclaims, spells⟩ := h.listed other ids known
    exact ⟨claims', hclaims, (List.map_congr_left fun id _ => keys id).trans spells⟩
  · exact (List.map_congr_left fun id _ => keys id).trans h.spells

/-- A symbol of the module claims its name. -/
theorem claim (h : Listing host root start module claims result run) {id : SymbolId} {name : String}
    (key : run.symbols.key? id = some (module, name)) (origin : Option Target) :
    Listing host root start module (claims ++ [(name, origin)])
      (if id ∈ result then result else result ++ [id]) run := by
  have taken := h.spells.mem_iff key
  by_cases old : id ∈ result
  · rw [if_pos old]
    refine ⟨h.toFrame, h.listed, ?_⟩
    rw [claimedNames_concat, if_pos (taken.1 old)]
    exact h.spells
  · rw [if_neg old]
    refine ⟨h.toFrame.push ⟨name, key⟩ old, h.listed, ?_⟩
    rw [claimedNames_concat, if_neg fun hname => old (taken.2 hname)]
    exact h.spells.concat key

/-- **A name is exported**: it is claimed once more. -/
theorem exportAs (h : Listing host root start module claims result run) {source : String}
    (hnormal : ModulePath.IsNormal source) {symbol : SymbolId}
    (hsymbol : run.symbols.BelongsTo source symbol) (name : String) (origin : Option Target) :
    RunM.Ensures (exportAs module symbol name result) run fun result' later =>
      Listing host root start module (claims ++ [(name, origin)]) result' later
        ∧ run.Keeps later := by
  refine RunM.Ensures.bind (h.symbolOf h.knows_module name) ?_
  intro newName run₁ hstep
  obtain ⟨listing, keeps, key⟩ := hstep
  have claimed := listing.claim key origin
  by_cases taken : newName ∈ result
  · rw [if_pos taken] at claimed ⊢
    exact RunM.Ensures.pure ⟨claimed, keeps⟩
  · rw [if_neg taken]
    refine RunM.Ensures.bind
      (listing.link hnormal (keeps.belongsTo hsymbol) ⟨name, key⟩) ?_
    intro _ run₂ hlink
    obtain ⟨listing', keeps'⟩ := hlink
    have claimed' := listing'.claim (keeps'.key? newName _ key) origin
    rw [if_neg taken] at claimed'
    exact RunM.Ensures.pure ⟨claimed', keeps.trans keeps'⟩

/-! ## §3. Entries and declarations -/

/-- A module that this one names is resolved.  Its symbols are those that it claims, or
it is in progress, exports nothing yet and leads back to this one. -/
theorem resolve (h : Listing host root start module claims result run)
    (hresolve : ListsFrom host root (module :: start.inProgress) resolveModule)
    (ancestors : ∀ other ∈ start.inProgress,
      Relation.TransGen (host.sources root).Edge other module)
    {specifier : String}
    (edge : (host.sources root).Edge module (ModulePath.resolve specifier module)) :
    RunM.Ensures (resolveModule (ModulePath.resolve specifier module)) run fun exported later =>
      Listing host root start module claims result later
        ∧ later.Knows (ModulePath.resolve specifier module)
        ∧ ((∃ offered, (host.sources root).Claims (host.sources root).LeadsBack
              (ModulePath.resolve specifier module) offered
            ∧ later.symbols.Spells (ModulePath.resolve specifier module) exported
              (claimedNames offered))
          ∨ exported = []
            ∧ (host.sources root).LeadsBack module (ModulePath.resolve specifier module)) := by
  have hnormal := ModulePath.isNormal_resolve specifier module
  refine (hresolve _ run hnormal h.sound h.stack h.listed ?_).mono ?_
  -- the edge continues every path that leads to this module
  · intro other hother
    rcases List.mem_cons.1 hother with rfl | hother
    · exact Relation.TransGen.single edge
    · exact Relation.TransGen.tail (ancestors other hother) edge
  · intro exported later hstep
    obtain ⟨hout, listed⟩ := hstep
    refine ⟨h.of_frame (h.toFrame.ofOutcome hout) hout.symbols.grows listed, hout.knows, ?_⟩
    rcases hout.answer with known | ⟨entered, nothing⟩
    · exact Or.inl (listed _ exported known)
    -- what is in progress is this module or one that leads to it
    · refine Or.inr ⟨nothing, ?_⟩
      rw [h.stack] at entered
      rcases List.mem_cons.1 entered with same | entered
      · rw [Sources.LeadsBack, same]
      · exact (ancestors _ entered).to_reflTransGen

/-- **An entry claims its name.** -/
theorem exportEntry (h : Listing host root start module claims result run)
    (hresolve : ListsFrom host root (module :: start.inProgress) resolveModule)
    (ancestors : ∀ other ∈ start.inProgress,
      Relation.TransGen (host.sources root).Edge other module)
    {document : Document} (found : host.sources root module = some document)
    {entry : String × Value} (mem : entry ∈ document.entries.toList) :
    RunM.Ensures (exportEntry resolveModule module result entry) run
      (Listing host root start module
        (claims ++ [(entry.1, entryOrigin? module entry.2)])) := by
  unfold FlatBundle.exportEntry
  split
  · next specifier name arguments refers =>
      have edge : (host.sources root).Edge module (ModulePath.resolve specifier module) :=
        ⟨document, found, Or.inl ⟨entry, mem, specifier, name, arguments, refers, rfl⟩⟩
      refine RunM.Ensures.bind (h.resolve hresolve ancestors edge) ?_
      intro _ run₁ hstep
      obtain ⟨listing, knows, -⟩ := hstep
      refine RunM.Ensures.bind (listing.symbolOf knows name) ?_
      intro symbol run₂ hsymbol
      obtain ⟨listing', -, key⟩ := hsymbol
      exact (listing'.exportAs (ModulePath.isNormal_resolve specifier module) ⟨name, key⟩
        entry.1 _).mono fun _ _ => And.left
  · refine RunM.Ensures.bind (h.symbolOf h.knows_module entry.1) ?_
    intro symbol run₁ hsymbol
    obtain ⟨listing, -, key⟩ := hsymbol
    exact RunM.Ensures.pure (listing.claim key (entryOrigin? module entry.2))

/-- The items of a declaration claim their names, one after the other. -/
theorem exportItems (h : Listing host root start module claims result run) {source : String}
    (hnormal : ModulePath.IsNormal source) (knows : run.Knows source) (items : List ExportItem) :
    RunM.Ensures (items.foldlM (exportItem module source) result) run
      (Listing host root start module (claims ++ itemClaims source items)) := by
  refine RunM.Ensures.foldlM (fun walked result' later =>
      Listing host root start module (claims ++ itemClaims source walked) result' later
        ∧ later.Knows source)
    items ⟨by simpa [itemClaims] using h, knows⟩ ?_ fun _ _ => And.left
  rintro walked item _ acc run₁ - ⟨listing, knows₁⟩
  refine RunM.Ensures.bind (listing.symbolOf knows₁ item.name) ?_
  intro symbol run₂ hsymbol
  obtain ⟨listing₂, keeps, key⟩ := hsymbol
  refine (listing₂.exportAs hnormal ⟨item.name, key⟩ item.exportedAs
    (some (source, item.name))).mono ?_
  intro result' run₃ hstep
  obtain ⟨listing₃, keeps'⟩ := hstep
  refine ⟨?_, (keeps.trans keeps').knows (listing₃.stack.trans listing.stack.symm) knows₁⟩
  rw [itemClaims, List.map_append, ← List.append_assoc]
  exact listing₃

/-- The symbols of another module claim the names that they have there. -/
theorem exportSymbols (h : Listing host root start module claims result run) {source : String}
    (hnormal : ModulePath.IsNormal source) {exported : List SymbolId} {names : List String}
    (spells : run.symbols.Spells source exported names) :
    RunM.Ensures (exported.foldlM (exportSame module) result) run
      (Listing host root start module (claims ++ sameClaims source names)) := by
  refine RunM.Ensures.foldlM (fun walked result' later =>
      Listing host root start module (claims ++ sameClaims source (names.take walked.length))
          result' later
        ∧ run.Keeps later)
    exported ⟨by simpa [sameClaims] using h, Run.Keeps.refl run⟩ ?_ ?_
  · intro walked symbol rest acc run₁ cut hstep
    obtain ⟨listing, keeps⟩ := hstep
    -- the symbol stands for the name at its place
    have place : names[walked.length]?.map (fun name => some (source, name))
        = some (run.symbols.key? symbol) := by
      rw [← List.getElem?_map, ← spells, List.getElem?_map, cut]
      simp
    obtain ⟨name, hname, key⟩ := Option.map_eq_some_iff.1 place
    obtain ⟨known, hknown, same⟩ := Option.map_eq_some_iff.1 (keeps.key? symbol _ key.symm)
    obtain ⟨-, rfl⟩ := Prod.mk.inj same
    refine RunM.Ensures.bindGet ?_
    rw [hknown]
    refine (listing.exportAs hnormal ⟨known.name, keeps.key? symbol _ key.symm⟩ known.name
      (some (source, known.name))).mono ?_
    intro result' run₂ hout
    obtain ⟨listing', keeps'⟩ := hout
    refine ⟨?_, keeps.trans keeps'⟩
    rw [List.length_append, List.length_singleton, List.take_add_one, hname, sameClaims,
      List.map_append, ← List.append_assoc]
    exact listing'
  · intro acc later hstep
    have all : exported.length = names.length := by
      simpa using congrArg List.length spells
    rw [all, List.take_length] at hstep
    exact hstep.1

/-- **A declaration claims names**, unless it exports all of a module that is in
progress. -/
theorem exportDeclaration (h : Listing host root start module claims result run)
    (hresolve : ListsFrom host root (module :: start.inProgress) resolveModule)
    (ancestors : ∀ other ∈ start.inProgress,
      Relation.TransGen (host.sources root).Edge other module)
    {declaration : ExportDeclaration}
    (mem : declaration ∈ (host.sources root).declarations module) :
    RunM.Ensures (exportDeclaration resolveModule module result declaration) run
      fun result' later => ∃ more,
        (host.sources root).DeclarationClaims (host.sources root).LeadsBack module [declaration] more
        ∧ Listing host root start module (claims ++ more) result' later := by
  have hnormal := ModulePath.isNormal_resolve declaration.source module
  have edge := Sources.edge_of_mem_declarations mem
  refine RunM.Ensures.bind (h.resolve hresolve ancestors edge) ?_
  intro exported run₁ hstep
  obtain ⟨listing, knows, offers⟩ := hstep
  cases chosen : declaration.items with
  | some items =>
      refine (listing.exportItems hnormal knows items).mono fun result' later hlater => ?_
      refine ⟨_, .chosen chosen .nil, ?_⟩
      rw [List.append_nil]
      exact hlater
  | none =>
      rcases offers with ⟨_, ⟨declared, hdeclared, rfl⟩, spells⟩ | ⟨rfl, back⟩
      · refine (listing.exportSymbols hnormal spells).mono fun result' later hlater => ?_
        refine ⟨_, .all chosen hdeclared .nil, ?_⟩
        rw [List.append_nil]
        exact hlater
      · refine RunM.Ensures.pure ⟨_, .passed chosen back .nil, ?_⟩
        rw [List.append_nil]
        exact listing

/-- A whole document claims what the module exports. -/
theorem exportDocument (h : Listing host root start module [] [] run) {answer : Option Document}
    (found : host.sources root module = answer)
    (hresolve : answer.isSome → ListsFrom host root (module :: start.inProgress) resolveModule)
    (ancestors : ∀ other ∈ start.inProgress,
      Relation.TransGen (host.sources root).Edge other module) :
    RunM.Ensures (exportDocument resolveModule module answer) run
      fun result later => ∃ claims,
        (host.sources root).Claims (host.sources root).LeadsBack module claims
        ∧ Listing host root start module claims result later := by
  cases answer with
  | none =>
      refine RunM.Ensures.pure ⟨[], ⟨[], ?_, ?_⟩, h⟩
      · rw [Sources.declarations, found]
        exact .nil
      · rw [Sources.entryClaims, found]
        rfl
  | some document =>
      have hresolve := hresolve rfl
      have own : (host.sources root).declarations module = document.declarations := by
        rw [Sources.declarations, found]
      have entries : RunM.Ensures
          (document.entries.toList.foldlM (walkEntry resolveModule module) []) run
          (Listing host root start module ((host.sources root).entryClaims module)) := by
        refine RunM.Ensures.foldlM (fun walked => Listing host root start module
            (walked.map fun entry => (entry.1, entryOrigin? module entry.2)))
          document.entries.toList h ?_ ?_
        · intro walked entry rest acc run' cut listing
          have mem : entry ∈ document.entries.toList := by simp [cut]
          have step := (listing.noted (.entry module entry.1 :: run'.log)).exportEntry hresolve
            ancestors found mem
          refine RunM.Ensures.bindPerform (step.mono ?_)
          intro result' later listing'
          rw [List.map_append]
          exact listing'
        · intro acc later listing
          rw [Sources.entryClaims, found]
          exact listing
      refine RunM.Ensures.bind entries ?_
      intro result' run' listing
      refine RunM.Ensures.foldlM (fun walked result'' later => ∃ declared,
          (host.sources root).DeclarationClaims (host.sources root).LeadsBack module walked declared
          ∧ Listing host root start module
            ((host.sources root).entryClaims module ++ declared) result'' later)
        document.declarations ⟨[], .nil, ?_⟩ ?_ ?_
      · rw [List.append_nil]
        exact listing
      · intro walked declaration rest acc later cut hwalked
        obtain ⟨declared, hdeclared, listing'⟩ := hwalked
        refine (listing'.exportDeclaration hresolve ancestors (by simp [own, cut])).mono ?_
        intro result'' final hmore
        obtain ⟨more, claims', listing''⟩ := hmore
        exact ⟨declared ++ more, hdeclared.append claims', List.append_assoc _ _ _ ▸ listing''⟩
      · intro acc later hwalked
        obtain ⟨declared, hdeclared, listing'⟩ := hwalked
        exact ⟨_, ⟨declared, own ▸ hdeclared, rfl⟩, listing'⟩

end Listing

/-! ## §4. Modules -/

/-- A module is entered with no claim walked. -/
theorem Listing.enter {run : Run} (sound : run.Sound host root)
    (listed : run.Listed (host.sources root)) {module : String}
    (unresolved : run.resolved.get? module = none) (outside : module ∉ run.inProgress) :
    Listing host root run module [] [] (run.inside module) where
  toFrame := Frame.enter sound unresolved outside
  listed := listed
  spells := rfl

/-- A module is left when all that it claims has been walked. -/
theorem Listing.leave {start run : Run} {module : String} {claims : List Claim}
    {result : List SymbolId} (h : Listing host root start module claims result run)
    (all : (host.sources root).Claims (host.sources root).LeadsBack module claims) :
    ((Step.leave module result).apply run).Listed (host.sources root) := by
  intro other ids known
  replace known : (run.resolved.insert module result).get? other = some ids := known
  rw [Entries.get?_insert] at known
  split at known
  · next same =>
      rw [same, ← Option.some.inj known]
      exact ⟨claims, all, h.spells⟩
  · exact h.listed other ids known

/-- **Resolving a module lists what it claims**, where the modules that it names can be
listed. -/
theorem lists_exportModule {resolveModule : String → RunM (List SymbolId)} {module : String}
    {run : Run} (sound : run.Sound host root) (listed : run.Listed (host.sources root))
    (ancestors : ∀ other ∈ run.inProgress,
      Relation.TransGen (host.sources root).Edge other module)
    (hresolve : run.resolved.get? module = none → module ∉ run.inProgress →
      (host.sources root module).isSome →
      ListsFrom host root (module :: run.inProgress) resolveModule) :
    RunM.Ensures (exportModule resolveModule module) run fun _ later =>
      later.Listed (host.sources root) := by
  refine RunM.Ensures.exportModule sound.reads (fun _ _ => listed) (fun _ _ => listed)
    fun unresolved outside => ?_
  have walked := (Listing.enter sound listed unresolved outside).exportDocument rfl
    (hresolve unresolved outside) ancestors
  refine walked.mono fun result later hstep => ?_
  obtain ⟨claims, all, listing⟩ := hstep
  exact listing.leave all

/-- Claims are listed as deep as there are documents left. -/
theorem listsFrom_exportNested (depth : Nat) (stack : List String)
    (enough : (openDocuments host root stack).length < depth) :
    ListsFrom host root stack (exportNested depth) := by
  induction depth generalizing stack with
  | zero => exact absurd enough (Nat.not_lt_zero _)
  | succ depth ih =>
      intro source run hnormal sound hstack listed ancestors
      subst hstack
      have outcome := resolvesFrom_exportNested (depth + 1) run.inProgress enough source run hnormal
        sound rfl
      refine outcome.and (lists_exportModule sound listed ancestors fun _ outside hdocument => ?_)
      have taken := length_openDocuments_cons_lt hnormal hdocument outside
      exact ih (source :: run.inProgress) (by omega)

/-- **The exports of any module are listed**, whatever has been resolved before. -/
theorem lists_exportAll {run : Run} (sound : run.Sound host root) (idle : run.inProgress = [])
    (listed : run.Listed (host.sources root)) (module : String) :
    RunM.Ensures (exportAll module) run fun _ later => later.Listed (host.sources root) := by
  refine RunM.Ensures.bindGet ?_
  rw [sound.host_eq]
  refine lists_exportModule sound listed (by simp [idle]) fun _ _ _ => ?_
  apply listsFrom_exportNested
  have bound := length_openDocuments_le host root (module :: run.inProgress)
  omega

end FlatBundle
