/-
  FlatBundle.Proofs.Export.Declared
  ─────────────────────────────────
  **WHAT A MODULE DECLARES IS NOBODY'S ALIAS.**

  An entry that is no reference to the symbol of another module declares its name
  (`Sources.Declares`).  Export declarations of the module may provide the same name once
  more, and a module in a circle is met again while it is being resolved; in no case is the
  symbol for the name linked to another one (`Run.KeepsDeclared`).

  A name is linked only if it is not exported yet, and the entries of a document are walked
  before its export declarations.  So the state of resolving a module (`Declaring`) says of
  the entries that have been walked that what they declare is among the exports; a name that
  is linked by an entry is declared by none, as a name has one entry, and a name that is
  linked by a declaration is not declared at all (`Declaring.exportAs`).
-/
import FlatBundle.Proofs.Export.Claims
import FlatBundle.Proofs.Export.Tracing
import FlatBundle.Proofs.Symbol.Accrual

namespace FlatBundle

variable {host : Host} {root : String} {sources : Sources}

/-! ## §1. Declared names -/

/-- The module has an entry for the name, which is no reference to the symbol of another
module. -/
def Sources.Declares (sources : Sources) (module name : String) : Prop :=
  ∃ document value, sources module = some document ∧ document.get? name = some value
    ∧ entryOrigin? module value = none

/-- No declared name is linked. -/
def Run.KeepsDeclared (sources : Sources) (run : Run) : Prop :=
  ∀ id module name, run.symbols.key? id = some (module, name) → sources.Declares module name →
    run.symbols.exports id = none

theorem Run.keepsDeclared_start (sources : Sources) (host : Host) (root : String) :
    (Run.start host root).KeepsDeclared sources := by
  intro id module name key
  exact absurd (SymbolTable.lt_size_of_key? key) (Nat.not_lt_zero id)

/-- Symbols are added, and the links stay. -/
theorem Run.KeepsDeclared.grows {run later : Run} (h : run.KeepsDeclared sources)
    (grows : run.symbols.Grows later.symbols)
    (same : ∀ id, later.symbols.exports id = run.symbols.exports id) :
    later.KeepsDeclared sources := by
  intro id module name key declared
  rw [same]
  cases link : run.symbols.exports id with
  | none => rfl
  -- what is linked was there before, under the same name
  | some source =>
      rw [grows.key? id (SymbolTable.lt_size_of_exports link)] at key
      exact link.symm.trans (h id module name key declared)

/-- What is not linked later was not linked before. -/
theorem Run.KeepsDeclared.of_accrues {run later : Run}
    (accrues : run.symbols.Accrues later.symbols) (h : later.KeepsDeclared sources) :
    run.KeepsDeclared sources := by
  intro id module name key declared
  cases link : run.symbols.exports id with
  | none => rfl
  | some source =>
      exact (accrues.exports link).symm.trans (h id module name (accrues.key? key) declared)

/-- An entry of the document declares its name, or is a reference to the symbol of another
module. -/
theorem Sources.declares_iff {module : String} {document : Document}
    (found : sources module = some document) {entry : String × Value}
    (mem : entry ∈ document.entries.toList) :
    sources.Declares module entry.1 ↔ entryOrigin? module entry.2 = none := by
  have own : document.get? entry.1 = some entry.2 :=
    Pairs.find?_eq_some_of_mem document.entries.nodup mem
  constructor
  · intro declared
    obtain ⟨document', value, found', hvalue, none_⟩ := declared
    rw [found] at found'
    obtain rfl := Option.some.inj found'
    rw [own] at hvalue
    obtain rfl := Option.some.inj hvalue
    exact none_
  · exact fun none_ => ⟨document, entry.2, found, own, none_⟩

/-- What is declared has an entry. -/
theorem Sources.Declares.mem_keys {module name : String} {document : Document}
    (found : sources module = some document) (h : sources.Declares module name) :
    name ∈ document.entries.keys := by
  obtain ⟨document', value, found', hvalue, -⟩ := h
  rw [found] at found'
  obtain rfl := Option.some.inj found'
  exact Pairs.mem_keys_of_find?_eq_some hvalue

/-! ## §2. The module that is being resolved -/

/-- The state of resolving `module` when the entries for some names have been walked: what
they declare is exported, and nothing that is declared anywhere is linked. -/
structure Declaring (host : Host) (root : String) (start : Run) (module : String)
    (walked : List String) (result : List SymbolId) (run : Run) : Prop
    extends Frame host root start module result run where
  declared : run.KeepsDeclared (host.sources root)
  exported : ∀ name ∈ walked, (host.sources root).Declares module name →
    ∃ id ∈ result, run.symbols.key? id = some (module, name)

/-- `resolveModule` resolves the modules in normal form, from runs with `stack` in
progress, and links no declared name. -/
def DeclaresFrom (host : Host) (root : String) (stack : List String)
    (resolveModule : String → RunM (List SymbolId)) : Prop :=
  ∀ source run, ModulePath.IsNormal source → run.Sound host root → run.inProgress = stack →
    run.KeepsDeclared (host.sources root) →
    RunM.Ensures (resolveModule source) run fun result later =>
      run.Outcome host root source result later ∧ later.KeepsDeclared (host.sources root)

namespace Declaring

variable {start run : Run} {module : String} {walked : List String}
variable {result : List SymbolId} {resolveModule : String → RunM (List SymbolId)}

/-- Steps that add symbols and links only walk no entry. -/
theorem of_frame (h : Declaring host root start module walked result run) {later : Run}
    (frame : Frame host root start module result later) (keeps : run.Keeps later)
    (declared : later.KeepsDeclared (host.sources root)) :
    Declaring host root start module walked result later where
  toFrame := frame
  declared := declared
  exported := by
    intro name hname own
    obtain ⟨id, hid, key⟩ := h.exported name hname own
    exact ⟨id, hid, keeps.key? id _ key⟩

/-- It does not matter what the log says. -/
theorem noted (h : Declaring host root start module walked result run) (log : List Step) :
    Declaring host root start module walked result { run with log := log } :=
  h.of_frame (h.toFrame.noted log) ⟨fun _ _ key => key, fun _ _ known => known⟩ h.declared

/-- The module exports one symbol more. -/
theorem push (h : Declaring host root start module walked result run) {id : SymbolId}
    (hid : run.symbols.BelongsTo module id) (new : id ∉ result) :
    Declaring host root start module walked (result ++ [id]) run where
  toFrame := h.toFrame.push hid new
  declared := h.declared
  exported := by
    intro name hname own
    obtain ⟨other, hother, key⟩ := h.exported name hname own
    exact ⟨other, List.mem_append_left _ hother, key⟩

theorem symbolOf (h : Declaring host root start module walked result run) {source : String}
    (hsource : run.Knows source) (name : String) :
    RunM.Ensures (RunM.symbolOf source name) run fun id later =>
      Declaring host root start module walked result later ∧ run.Keeps later
        ∧ later.symbols.key? id = some (source, name) := by
  obtain ⟨frame, keeps, key⟩ := h.toFrame.symbolOf hsource name
  have grows := (SymbolTable.Extends.symbolOf run.symbols source name).grows
  refine ⟨h.of_frame frame keeps ?_, keeps, key⟩
  exact h.declared.grows grows (run.symbols.exports_symbolOf source name)

/-- A name that is not declared is linked. -/
theorem link (h : Declaring host root start module walked result run) {source name : String}
    (hnormal : ModulePath.IsNormal source) {exported newName : SymbolId}
    (hexported : run.symbols.BelongsTo source exported)
    (hnewName : run.symbols.key? newName = some (module, name))
    (free : ¬ (host.sources root).Declares module name) :
    RunM.Ensures (RunM.link exported newName) run fun _ later =>
      Declaring host root start module walked result later ∧ run.Keeps later := by
  obtain ⟨frame, keeps⟩ := h.toFrame.link hnormal hexported ⟨name, hnewName⟩
  refine ⟨h.of_frame frame keeps ?_, keeps⟩
  intro id other name' key declared
  replace key := (run.symbols.key?_link exported newName id).symm.trans key
  show (run.symbols.link exported newName).exports id = none
  rcases run.symbols.link_cases exported newName with ⟨-, same⟩ | ⟨ne, unlinked⟩
  · rw [same]
    exact h.declared id other name' key declared
  · rw [SymbolTable.exports_link ne unlinked (SymbolTable.lt_size_of_key? hnewName)]
    split
    -- the symbol that is linked is for the name, which is not declared
    · next here =>
        rw [here, hnewName] at key
        obtain ⟨rfl, rfl⟩ := Prod.mk.inj (Option.some.inj key)
        exact absurd declared free
    · exact h.declared id other name' key declared

/-- **A name is exported from another module.**  If it is declared, its entry has been
walked, so it is exported already and is not linked. -/
theorem exportAs (h : Declaring host root start module walked result run) {source : String}
    (hnormal : ModulePath.IsNormal source) {symbol : SymbolId}
    (hsymbol : run.symbols.BelongsTo source symbol) {name : String}
    (own : (host.sources root).Declares module name → name ∈ walked) :
    RunM.Ensures (exportAs module symbol name result) run fun result' later =>
      Declaring host root start module walked result' later ∧ run.Keeps later := by
  refine RunM.Ensures.bind (h.symbolOf h.knows_module name) ?_
  intro newName run₁ hstep
  obtain ⟨declaring, keeps, key⟩ := hstep
  by_cases taken : newName ∈ result
  · rw [if_pos taken]
    exact RunM.Ensures.pure ⟨declaring, keeps⟩
  · rw [if_neg taken]
    have free : ¬ (host.sources root).Declares module name := by
      intro declared
      obtain ⟨id, hid, key'⟩ := declaring.exported name (own declared) declared
      exact taken (SymbolTable.key?_inj key' key ▸ hid)
    refine RunM.Ensures.bind
      (declaring.link hnormal (keeps.belongsTo hsymbol) key free) ?_
    intro _ run₂ hlink
    obtain ⟨declaring', keeps'⟩ := hlink
    exact RunM.Ensures.pure
      ⟨declaring'.push ⟨name, keeps'.key? newName _ key⟩ taken, keeps.trans keeps'⟩

/-! ## §3. Entries and declarations -/

/-- A module that this one names is resolved. -/
theorem resolve (h : Declaring host root start module walked result run)
    (hresolve : DeclaresFrom host root (module :: start.inProgress) resolveModule)
    (specifier : String) :
    RunM.Ensures (resolveModule (ModulePath.resolve specifier module)) run fun exported later =>
      Declaring host root start module walked result later
        ∧ later.Knows (ModulePath.resolve specifier module)
        ∧ ∀ id ∈ exported, later.symbols.BelongsTo (ModulePath.resolve specifier module) id := by
  have hnormal := ModulePath.isNormal_resolve specifier module
  refine (hresolve _ run hnormal h.sound h.stack h.declared).mono ?_
  intro exported later hstep
  obtain ⟨hout, declared⟩ := hstep
  exact ⟨h.of_frame (h.toFrame.ofOutcome hout) hout.keeps declared, hout.knows, hout.belongsTo⟩

/-- **An entry is walked.** -/
theorem exportEntry (h : Declaring host root start module walked result run)
    (hresolve : DeclaresFrom host root (module :: start.inProgress) resolveModule)
    {document : Document} (found : host.sources root module = some document)
    {entry : String × Value} (mem : entry ∈ document.entries.toList) :
    RunM.Ensures (exportEntry resolveModule module result entry) run
      (Declaring host root start module (walked ++ [entry.1])) := by
  have declares := Sources.declares_iff found mem
  -- what is known of the entry is added to what is known of those before it
  have walk : ∀ {result' : List SymbolId} {later : Run},
      Declaring host root start module walked result' later →
      ((host.sources root).Declares module entry.1 →
        ∃ id ∈ result', later.symbols.key? id = some (module, entry.1)) →
      Declaring host root start module (walked ++ [entry.1]) result' later := by
    intro result' later declaring here
    refine ⟨declaring.toFrame, declaring.declared, fun name hname own => ?_⟩
    rcases List.mem_append.1 hname with hname | hname
    · exact declaring.exported name hname own
    · obtain rfl := List.mem_singleton.1 hname
      exact here own
  unfold FlatBundle.exportEntry
  split
  · next specifier name arguments refers =>
      have imported : ¬ (host.sources root).Declares module entry.1 := by
        rw [declares, entryOrigin?, refers]
        exact Option.some_ne_none _
      refine RunM.Ensures.bind (h.resolve hresolve specifier) ?_
      intro _ run₁ hstep
      obtain ⟨declaring, knows, -⟩ := hstep
      refine RunM.Ensures.bind (declaring.symbolOf knows name) ?_
      intro symbol run₂ hsymbol
      obtain ⟨declaring', -, key⟩ := hsymbol
      refine (declaring'.exportAs (ModulePath.isNormal_resolve specifier module) ⟨name, key⟩
        fun own => absurd own imported).mono ?_
      exact fun result' later hout => walk hout.1 fun own => absurd own imported
  · refine RunM.Ensures.bind (h.symbolOf h.knows_module entry.1) ?_
    intro symbol run₁ hsymbol
    obtain ⟨declaring, -, key⟩ := hsymbol
    by_cases taken : symbol ∈ result
    · rw [if_pos taken]
      exact RunM.Ensures.pure (walk declaring fun _ => ⟨symbol, taken, key⟩)
    · rw [if_neg taken]
      refine RunM.Ensures.pure (walk (declaring.push ⟨entry.1, key⟩ taken) fun _ => ?_)
      exact ⟨symbol, List.mem_append_right _ List.mem_cons_self, key⟩

/-- The items of a declaration are exported, one after the other. -/
theorem exportItems (h : Declaring host root start module walked result run) {source : String}
    (hnormal : ModulePath.IsNormal source) (knows : run.Knows source)
    (own : ∀ name, (host.sources root).Declares module name → name ∈ walked)
    (items : List ExportItem) :
    RunM.Ensures (items.foldlM (exportItem module source) result) run
      (Declaring host root start module walked) := by
  refine RunM.Ensures.foldlM (fun _ result' later =>
      Declaring host root start module walked result' later ∧ later.Knows source)
    items ⟨h, knows⟩ ?_ fun _ _ => And.left
  rintro _ item _ acc run₁ - ⟨declaring, knows₁⟩
  refine RunM.Ensures.bind (declaring.symbolOf knows₁ item.name) ?_
  intro symbol run₂ hsymbol
  obtain ⟨declaring₂, keeps, key⟩ := hsymbol
  refine (declaring₂.exportAs hnormal ⟨item.name, key⟩ (own item.exportedAs)).mono ?_
  intro result' run₃ hout
  obtain ⟨declaring₃, keeps'⟩ := hout
  exact ⟨declaring₃,
    (keeps.trans keeps').knows (declaring₃.stack.trans declaring.stack.symm) knows₁⟩

/-- The symbols of another module are exported under the names that they have there. -/
theorem exportSymbols (h : Declaring host root start module walked result run) {source : String}
    (hnormal : ModulePath.IsNormal source) {exported : List SymbolId}
    (belongs : ∀ id ∈ exported, run.symbols.BelongsTo source id)
    (own : ∀ name, (host.sources root).Declares module name → name ∈ walked) :
    RunM.Ensures (exported.foldlM (exportSame module) result) run
      (Declaring host root start module walked) := by
  refine RunM.Ensures.foldlM (fun _ result' later =>
      Declaring host root start module walked result' later ∧ run.Keeps later)
    exported ⟨h, Run.Keeps.refl run⟩ ?_ fun _ _ => And.left
  intro _ symbol rest acc run₁ cut hstep
  obtain ⟨declaring, keeps⟩ := hstep
  have hsymbol := keeps.belongsTo (belongs symbol (by simp [cut]))
  have bound := SymbolTable.lt_size_of_key? hsymbol.choose_spec
  obtain ⟨known, hknown⟩ := SymbolTable.exists_get?_of_lt bound
  refine RunM.Ensures.bindGet ?_
  rw [hknown]
  refine (declaring.exportAs hnormal hsymbol (own known.name)).mono ?_
  intro result' run₂ hout
  exact ⟨hout.1, keeps.trans hout.2⟩

/-- **An export declaration is carried out** after all entries have been walked. -/
theorem exportDeclaration (h : Declaring host root start module walked result run)
    (hresolve : DeclaresFrom host root (module :: start.inProgress) resolveModule)
    (own : ∀ name, (host.sources root).Declares module name → name ∈ walked)
    (declaration : ExportDeclaration) :
    RunM.Ensures (exportDeclaration resolveModule module result declaration) run
      (Declaring host root start module walked) := by
  have hnormal := ModulePath.isNormal_resolve declaration.source module
  refine RunM.Ensures.bind (h.resolve hresolve declaration.source) ?_
  intro exported run₁ hstep
  obtain ⟨declaring, knows, belongs⟩ := hstep
  cases declaration.items with
  | some items => exact declaring.exportItems hnormal knows own items
  | none => exact declaring.exportSymbols hnormal belongs own

/-- A whole document is carried out. -/
theorem exportDocument (h : Declaring host root start module [] [] run) {answer : Option Document}
    (found : host.sources root module = answer)
    (hresolve : answer.isSome →
      DeclaresFrom host root (module :: start.inProgress) resolveModule) :
    RunM.Ensures (exportDocument resolveModule module answer) run fun result later =>
      ∃ walked, Declaring host root start module walked result later := by
  cases answer with
  | none => exact RunM.Ensures.pure ⟨[], h⟩
  | some document =>
      have hresolve := hresolve rfl
      have entries : RunM.Ensures
          (document.entries.toList.foldlM (walkEntry resolveModule module) []) run
          (Declaring host root start module document.entries.keys) := by
        refine RunM.Ensures.foldlM
          (fun walked => Declaring host root start module (walked.map Prod.fst))
          document.entries.toList h ?_ fun _ _ => id
        intro walked entry rest acc run' cut declaring
        have mem : entry ∈ document.entries.toList := by simp [cut]
        have step := (declaring.noted (.entry module entry.1 :: run'.log)).exportEntry hresolve found
          mem
        refine RunM.Ensures.bindPerform (step.mono ?_)
        intro result' later declaring'
        rw [List.map_append]
        exact declaring'
      refine RunM.Ensures.bind entries ?_
      intro result' run' declaring
      refine (RunM.Ensures.foldlM
        (fun _ => Declaring host root start module document.entries.keys) document.declarations
        declaring ?_ fun _ _ => id).mono fun _ _ hout => ⟨_, hout⟩
      intro _ declaration _ acc later _ declaring'
      exact declaring'.exportDeclaration hresolve (fun _ own => own.mem_keys found) declaration

end Declaring

/-! ## §4. Modules -/

/-- **Resolving a module links no declared name**, where this holds of the modules that it
names. -/
theorem declares_exportModule {resolveModule : String → RunM (List SymbolId)} {module : String}
    {run : Run} (sound : run.Sound host root) (declared : run.KeepsDeclared (host.sources root))
    (hresolve : run.resolved.get? module = none → module ∉ run.inProgress →
      (host.sources root module).isSome →
      DeclaresFrom host root (module :: run.inProgress) resolveModule) :
    RunM.Ensures (exportModule resolveModule module) run fun _ later =>
      later.KeepsDeclared (host.sources root) := by
  refine RunM.Ensures.exportModule sound.reads (fun _ _ => declared) (fun _ _ => declared)
    fun unresolved outside => ?_
  have declaring : Declaring host root run module [] [] (run.inside module) :=
    ⟨Frame.enter sound unresolved outside, declared, by simp⟩
  refine (declaring.exportDocument rfl (hresolve unresolved outside)).mono fun result later hstep => ?_
  -- leaving a module changes no symbol
  obtain ⟨walked, declaring'⟩ := hstep
  exact declaring'.declared

theorem declaresFrom_exportNested (depth : Nat) (stack : List String)
    (enough : (openDocuments host root stack).length < depth) :
    DeclaresFrom host root stack (exportNested depth) := by
  induction depth generalizing stack with
  | zero => exact absurd enough (Nat.not_lt_zero _)
  | succ depth ih =>
      intro source run hnormal sound hstack declared
      subst hstack
      have outcome := resolvesFrom_exportNested (depth + 1) run.inProgress enough source run hnormal
        sound rfl
      refine outcome.and (declares_exportModule sound declared fun _ outside hdocument => ?_)
      have taken := length_openDocuments_cons_lt hnormal hdocument outside
      exact ih (source :: run.inProgress) (by omega)

/-- **The exports of any module are resolved without linking a declared name**, whatever has
been resolved before and whatever is in progress. -/
theorem declares_exportAll {run : Run} (sound : run.Sound host root)
    (declared : run.KeepsDeclared (host.sources root)) (module : String) :
    RunM.Ensures (exportAll module) run fun _ later =>
      later.KeepsDeclared (host.sources root) := by
  refine RunM.Ensures.bindGet ?_
  rw [sound.host_eq]
  refine declares_exportModule sound declared fun _ _ _ => ?_
  apply declaresFrom_exportNested
  have bound := length_openDocuments_le host root (module :: run.inProgress)
  omega

end FlatBundle
