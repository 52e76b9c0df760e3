/-
  FlatBundle.Proofs.Export.Resolution
  ───────────────────────────────────
  **RESOLVING EXPORTS KEEPS THE RUN SOUND AND ADDS NEW SYMBOLS ONLY.**

  Every symbol of a sound run belongs to a module whose exports are known or are
  being resolved.  So when a module is entered there is no symbol of it yet, all
  links that are made for it start at new symbols, and what the old symbols export
  is left alone (`Extends`).

  The module that is being resolved is a `Frame` on the stack `inProgress`.  The
  lemmas go up from one name (`Frame.exportAs`) through entries and declarations
  to a module (`ensures_exportModule`).  The depth to which resolution nests is
  enough because every module on the stack stands for a document of its own
  (`ensures_exportAll`).
-/
import FlatBundle.Proofs.Run.Soundness

namespace FlatBundle

variable {host : Host} {root : String}

/-! ## §1. What resolving a module comes to -/

/-- What resolving the exports of `module` comes to: the run is sound as before,
has new symbols only, and knows the result, unless the module was met while it
was being resolved. -/
structure Run.Outcome (host : Host) (root : String) (start : Run) (module : String)
    (result : List SymbolId) (run : Run) : Prop where
  sound : run.Sound host root
  keeps : start.Keeps run
  symbols : start.symbols.Extends run.symbols
  stack : run.inProgress = start.inProgress
  rootExports : run.rootExports = start.rootExports
  answer : run.resolved.get? module = some result ∨ module ∈ start.inProgress ∧ result = []

theorem Run.Outcome.knows {start run : Run} {module : String} {result : List SymbolId}
    (h : start.Outcome host root module result run) : run.Knows module := by
  rcases h.answer with known | ⟨entered, -⟩
  · exact Or.inl (by rw [known]; rfl)
  · exact Or.inr (h.stack ▸ entered)

theorem Run.Outcome.belongsTo {start run : Run} {module : String} {result : List SymbolId}
    (h : start.Outcome host root module result run) :
    ∀ id ∈ result, run.symbols.BelongsTo module id := by
  rcases h.answer with known | ⟨-, rfl⟩
  · exact (h.sound.lists module result known).2
  · simp

/-! ## §2. The module that is being resolved -/

/-- The state of resolving `module`, entered from the run `start`, with the
symbols that it is known to export so far. -/
structure Frame (host : Host) (root : String) (start : Run) (module : String)
    (result : List SymbolId) (run : Run) : Prop where
  sound : run.Sound host root
  keeps : start.Keeps run
  symbols : start.symbols.Extends run.symbols
  stack : run.inProgress = module :: start.inProgress
  rootExports : run.rootExports = start.rootExports
  /-- No symbol of the module was there when it was entered. -/
  fresh : ∀ id, ¬ start.symbols.BelongsTo module id
  nodup : result.Nodup
  owned : ∀ id ∈ result, run.symbols.BelongsTo module id

namespace Frame

variable {start run : Run} {module : String} {result : List SymbolId}

theorem knows_module (h : Frame host root start module result run) : run.Knows module :=
  Or.inr (h.stack ▸ List.mem_cons_self)

/-- The symbols of the module have been created since it was entered. -/
theorem size_le (h : Frame host root start module result run) {id : Nat}
    (hid : run.symbols.BelongsTo module id) : start.symbols.size ≤ id := by
  -- an old symbol of the module would have been there when it was entered
  refine Nat.le_of_not_lt fun old => ?_
  obtain ⟨name, hk⟩ := hid
  rw [h.symbols.grows.key? id old] at hk
  exact h.fresh id ⟨name, hk⟩

/-- The symbol of a name is looked up or created. -/
theorem symbolOf (h : Frame host root start module result run) {source : String}
    (hsource : run.Knows source) (name : String) :
    RunM.Ensures (RunM.symbolOf source name) run fun id run' =>
      Frame host root start module result run' ∧ run.Keeps run'
        ∧ run'.symbols.key? id = some (source, name) := by
  have extends_ := SymbolTable.Extends.symbolOf run.symbols source name
  have keeps : run.Keeps ((Step.symbolOf source name).apply run) :=
    ⟨fun id key hk => extends_.grows.key?_eq_some hk, fun _ _ hr => hr⟩
  exact ⟨⟨h.sound.symbolOf hsource name, h.keeps.trans keeps, h.symbols.trans extends_, h.stack,
    h.rootExports, h.fresh, h.nodup, fun id hid => keeps.belongsTo (h.owned id hid)⟩, keeps,
    run.symbols.key?_symbolOf source name⟩

/-- A symbol of the module is linked to one of a module in normal form. -/
theorem link (h : Frame host root start module result run) {source : String}
    (hnormal : ModulePath.IsNormal source) {exported newName : Nat}
    (hexported : run.symbols.BelongsTo source exported)
    (hnewName : run.symbols.BelongsTo module newName) :
    RunM.Ensures (RunM.link exported newName) run fun _ run' =>
      Frame host root start module result run' ∧ run.Keeps run' := by
  have key := run.symbols.key?_link exported newName
  have keeps : run.Keeps ((Step.link exported newName).apply run) :=
    ⟨fun id k hk => (key id).trans hk, fun _ _ hr => hr⟩
  have belongs : ∀ id other, (run.symbols.link exported newName).BelongsTo other id →
      run.symbols.BelongsTo other id := by
    intro id other hstep
    obtain ⟨name, hk⟩ := hstep
    exact ⟨name, (key id).symm.trans hk⟩
  obtain ⟨_, hke⟩ := hexported
  obtain ⟨_, hkn⟩ := hnewName
  have boundExported := SymbolTable.lt_size_of_key? hke
  have boundNewName := SymbolTable.lt_size_of_key? hkn
  refine ⟨⟨?_, h.keeps.trans keeps, h.symbols.link (h.size_le ⟨_, hkn⟩), h.stack, h.rootExports,
    h.fresh, h.nodup, fun id hid => keeps.belongsTo (h.owned id hid)⟩, keeps⟩
  refine ⟨h.sound.host_eq, h.sound.root_eq, h.sound.faithful,
    h.sound.linked.link boundExported boundNewName, ?_, ?_, ?_⟩
  · intro id other hb
    exact h.sound.knows id other (belongs id other hb)
  · intro other ids hr
    obtain ⟨nodup, owned⟩ := h.sound.lists other ids hr
    exact ⟨nodup, fun id hid => keeps.belongsTo (owned id hid)⟩
  -- a link is an old one, or the new one, which leads to the given module
  · intro id target other hl hb
    have hb' := belongs target other hb
    replace hl : (run.symbols.link exported newName).exports id = some target := hl
    rcases run.symbols.link_cases exported newName with ⟨-, same⟩ | ⟨ne, free⟩
    · rw [same] at hl
      exact h.sound.normal id target other hl hb'
    · rw [SymbolTable.exports_link ne free boundNewName] at hl
      split at hl
      · rw [← Option.some.inj hl] at hb'
        obtain ⟨_, hk⟩ := hb'
        rw [hke] at hk
        have same : source = other := congrArg Prod.fst (Option.some.inj hk)
        exact same ▸ hnormal
      · exact h.sound.normal id target other hl hb'

/-- Another module is resolved in between. -/
theorem ofOutcome (h : Frame host root start module result run) {source : String}
    {exported : List SymbolId} {run' : Run} (hout : run.Outcome host root source exported run') :
    Frame host root start module result run' where
  sound := hout.sound
  keeps := h.keeps.trans hout.keeps
  symbols := h.symbols.trans hout.symbols
  stack := hout.stack.trans h.stack
  rootExports := hout.rootExports.trans h.rootExports
  fresh := h.fresh
  nodup := h.nodup
  owned := fun id hid => hout.keeps.belongsTo (h.owned id hid)

/-- It does not matter what the log says. -/
theorem noted (h : Frame host root start module result run) (log : List Step) :
    Frame host root start module result { run with log := log } :=
  ⟨h.sound.noted log, ⟨h.keeps.key?, h.keeps.resolved⟩, h.symbols, h.stack, h.rootExports, h.fresh,
    h.nodup, h.owned⟩

/-- The module exports one symbol more. -/
theorem push (h : Frame host root start module result run) {id : SymbolId}
    (hid : run.symbols.BelongsTo module id) (new : id ∉ result) :
    Frame host root start module (result ++ [id]) run where
  sound := h.sound
  keeps := h.keeps
  symbols := h.symbols
  stack := h.stack
  rootExports := h.rootExports
  fresh := h.fresh
  nodup := List.nodup_append.2 ⟨h.nodup, by simp, by
    intro a ha b hb e
    rw [List.mem_singleton.1 hb] at e
    exact new (e ▸ ha)⟩
  owned := by
    intro other hother
    rcases List.mem_append.1 hother with hother | hother
    · exact h.owned other hother
    · rw [List.mem_singleton.1 hother]
      exact hid

end Frame

/-! ## §3. Names, entries and declarations -/

namespace Frame

variable {start run : Run} {module : String} {result : List SymbolId}

/-- One name is exported, from a module in normal form. -/
theorem exportAs (h : Frame host root start module result run) {source : String}
    (hnormal : ModulePath.IsNormal source) {symbol : SymbolId}
    (hsymbol : run.symbols.BelongsTo source symbol) (name : String) :
    RunM.Ensures (exportAs module symbol name result) run fun result' run' =>
      Frame host root start module result' run' ∧ run.Keeps run' := by
  refine RunM.Ensures.bind (h.symbolOf h.knows_module name) ?_
  intro newName run₁ hstep
  obtain ⟨frame, keeps, key⟩ := hstep
  -- a name that is exported already keeps its first link
  by_cases taken : newName ∈ result
  · rw [if_pos taken]
    exact RunM.Ensures.pure ⟨frame, keeps⟩
  · rw [if_neg taken]
    refine RunM.Ensures.bind
      (frame.link hnormal (keeps.belongsTo hsymbol) ⟨name, key⟩) ?_
    rintro ⟨⟩ run₂ ⟨frame', keeps'⟩
    refine RunM.Ensures.pure ⟨frame'.push ?_ taken, keeps.trans keeps'⟩
    exact ⟨name, keeps'.key? newName _ key⟩

end Frame

/-- `resolveModule` resolves the modules in normal form, from runs with `stack` in
progress. -/
def ResolvesFrom (host : Host) (root : String) (stack : List String)
    (resolveModule : String → RunM (List SymbolId)) : Prop :=
  ∀ source run, ModulePath.IsNormal source → run.Sound host root → run.inProgress = stack →
    RunM.Ensures (resolveModule source) run (run.Outcome host root source)

namespace Frame

variable {start run : Run} {module : String} {result : List SymbolId}
variable {resolveModule : String → RunM (List SymbolId)}

/-- One entry of the document is exported. -/
theorem exportEntry (h : Frame host root start module result run)
    (hresolve : ResolvesFrom host root (module :: start.inProgress) resolveModule)
    (entry : String × Value) :
    RunM.Ensures (exportEntry resolveModule module result entry) run fun result' run' =>
      Frame host root start module result' run' := by
  unfold FlatBundle.exportEntry
  split
  · next specifier name _ _ =>
      have hnormal := ModulePath.isNormal_resolve specifier module
      refine RunM.Ensures.bind (hresolve _ run hnormal h.sound h.stack) ?_
      intro exported run₁ hout
      refine RunM.Ensures.bind ((h.ofOutcome hout).symbolOf hout.knows name) ?_
      intro symbol run₂ hstep
      obtain ⟨frame, -, key⟩ := hstep
      exact (frame.exportAs hnormal ⟨name, key⟩ entry.1).mono fun _ _ => And.left
  · refine RunM.Ensures.bind (h.symbolOf h.knows_module entry.1) ?_
    intro symbol run₁ hstep
    obtain ⟨frame, -, key⟩ := hstep
    by_cases taken : symbol ∈ result
    · rw [if_pos taken]
      exact RunM.Ensures.pure frame
    · rw [if_neg taken]
      exact RunM.Ensures.pure (frame.push ⟨entry.1, key⟩ taken)

/-- An export declaration is carried out. -/
theorem exportDeclaration (h : Frame host root start module result run)
    (hresolve : ResolvesFrom host root (module :: start.inProgress) resolveModule)
    (declaration : ExportDeclaration) :
    RunM.Ensures (exportDeclaration resolveModule module result declaration) run
      fun result' run' => Frame host root start module result' run' := by
  have hnormal := ModulePath.isNormal_resolve declaration.source module
  refine RunM.Ensures.bind (hresolve _ run hnormal h.sound h.stack) ?_
  intro exported run₁ hout
  have frame := h.ofOutcome hout
  cases declaration.items with
  | some items =>
      refine RunM.Ensures.foldlM (fun _ result' run' =>
          Frame host root start module result' run'
            ∧ run'.Knows (ModulePath.resolve declaration.source module))
        items ⟨frame, hout.knows⟩ ?_ fun _ _ => And.left
      rintro _ item _ acc run₂ - ⟨frame₂, knows⟩
      refine RunM.Ensures.bind (frame₂.symbolOf knows item.name) ?_
      intro symbol run₃ hstep
      obtain ⟨frame₃, keeps, key⟩ := hstep
      refine (frame₃.exportAs hnormal ⟨item.name, key⟩ item.exportedAs).mono ?_
      intro result' run₄ hstep
      obtain ⟨frame₄, keeps'⟩ := hstep
      exact ⟨frame₄, (keeps.trans keeps').knows (frame₄.stack.trans frame₂.stack.symm) knows⟩
  | none =>
      refine RunM.Ensures.foldlM (fun _ result' run' =>
          Frame host root start module result' run' ∧ run₁.Keeps run')
        exported ⟨frame, Run.Keeps.refl run₁⟩ ?_ fun _ _ => And.left
      intro _ symbol rest acc run₂ split hstep
      obtain ⟨frame₂, keeps⟩ := hstep
      -- what the other module exports belongs to it, also after later links
      have hsymbol := keeps.belongsTo (hout.belongsTo symbol (by simp [split]))
      have bound := SymbolTable.lt_size_of_key? hsymbol.choose_spec
      obtain ⟨known, hknown⟩ := SymbolTable.exists_get?_of_lt bound
      refine RunM.Ensures.bindGet ?_
      rw [hknown]
      refine (frame₂.exportAs hnormal hsymbol known.name).mono ?_
      intro result' run₃ hstep
      obtain ⟨frame₃, keeps'⟩ := hstep
      exact ⟨frame₃, keeps.trans keeps'⟩

/-- A whole document is carried out. -/
theorem exportDocument (h : Frame host root start module [] run) {answer : Option Document}
    (hresolve : answer.isSome → ResolvesFrom host root (module :: start.inProgress) resolveModule) :
    RunM.Ensures (exportDocument resolveModule module answer) run
      fun result' run' => Frame host root start module result' run' := by
  cases answer with
  | none => exact RunM.Ensures.pure h
  | some document =>
      have hresolve := hresolve rfl
      have entries : RunM.Ensures
          (document.entries.toList.foldlM (walkEntry resolveModule module) []) run
          (Frame host root start module) := by
        refine RunM.Ensures.foldlM (fun _ => Frame host root start module) _ h ?_ fun _ _ => id
        intro _ entry _ acc run' _ frame
        exact RunM.Ensures.bindPerform ((frame.noted _).exportEntry hresolve entry)
      refine RunM.Ensures.bind entries ?_
      intro result' run' frame
      refine RunM.Ensures.foldlM (fun _ => Frame host root start module) _ frame ?_ fun _ _ => id
      intro _ declaration _ acc run'' _ frame'
      exact frame'.exportDeclaration hresolve declaration

end Frame

/-! ## §4. Modules -/

/-- A module that is neither resolved nor entered is entered. -/
theorem Frame.enter {run : Run} (sound : run.Sound host root) {module : String}
    (unresolved : run.resolved.get? module = none) (outside : module ∉ run.inProgress) :
    Frame host root run module [] (run.inside module) := by
  obtain ⟨-, faithful, host_eq, root_eq⟩ := Store.get_of_faithful sound.faithful module
  refine ⟨⟨host_eq.trans sound.host_eq, root_eq.trans sound.root_eq, faithful, sound.linked, ?_,
    sound.lists, sound.normal⟩, ⟨fun _ _ hk => hk, fun _ _ hr => hr⟩,
    SymbolTable.Extends.refl _, rfl, rfl, ?_, List.nodup_nil, by simp⟩
  · intro id other hb
    rcases sound.knows id other hb with known | entered
    · exact Or.inl known
    · exact Or.inr (List.mem_cons_of_mem _ entered)
  -- a symbol of the module would make it known, and it is neither resolved nor entered
  · intro id hb
    rcases sound.knows id module hb with known | entered
    · rw [unresolved] at known
      cases known
    · exact outside entered

/-- The module is left, and its exports are remembered. -/
theorem Frame.leave {start run : Run} {module : String} {result : List SymbolId}
    (h : Frame host root start module result run)
    (unresolved : start.resolved.get? module = none) :
    start.Outcome host root module result ((Step.leave module result).apply run) := by
  have stack : ((Step.leave module result).apply run).inProgress = start.inProgress := by
    show run.inProgress.erase module = start.inProgress
    rw [h.stack, List.erase_cons_head]
  have known : ∀ other, ((Step.leave module result).apply run).resolved.get? other
      = if other = module then some result else run.resolved.get? other :=
    fun other => run.resolved.get?_insert module other result
  have answer : ((Step.leave module result).apply run).resolved.get? module = some result := by
    rw [known, if_pos rfl]
  refine ⟨⟨h.sound.host_eq, h.sound.root_eq, h.sound.faithful, h.sound.linked, ?_, ?_,
    h.sound.normal⟩, ⟨h.keeps.key?, ?_⟩, h.symbols, stack, h.rootExports, Or.inl answer⟩
  · intro id other hb
    -- a module known as entered is now known as resolved
    by_cases same : other = module
    · exact Or.inl (by rw [same, answer]; rfl)
    · rcases h.sound.knows id other hb with old | entered
      · exact Or.inl (by rw [known, if_neg same]; exact old)
      · rw [h.stack] at entered
        rcases List.mem_cons.1 entered with here | entered
        · exact absurd here same
        · exact Or.inr (stack ▸ entered)
  · intro other ids hr
    rw [known] at hr
    split at hr
    · next same =>
        rw [← Option.some.inj hr, same]
        exact ⟨h.nodup, h.owned⟩
    · exact h.sound.lists other ids hr
  · intro other ids hr
    rw [known]
    split
    · next same =>
        rw [same, unresolved] at hr
        cases hr
    · exact h.keeps.resolved other ids hr

/-- **The three ways in which a module is resolved**: its exports are known, it is being
resolved, or it is entered, its document is walked and it is left. -/
theorem RunM.Ensures.exportModule {resolveModule : String → RunM (List SymbolId)}
    {module : String} {run : Run} {post : List SymbolId → Run → Prop} (reads : run.Reads host root)
    (resolved : ∀ result, run.resolved.get? module = some result → post result run)
    (circular : run.resolved.get? module = none → module ∈ run.inProgress → post [] run)
    (walked : run.resolved.get? module = none → module ∉ run.inProgress →
      RunM.Ensures (exportDocument resolveModule module (host.sources root module))
        (run.inside module) fun result later => post result ((Step.leave module result).apply later)) :
    RunM.Ensures (FlatBundle.exportModule resolveModule module) run post := by
  refine RunM.Ensures.bindGet ?_
  cases known : run.resolved.get? module with
  | some result => exact RunM.Ensures.pure (resolved result known)
  | none =>
      refine RunM.Ensures.bindGet ?_
      -- entered and not left: a cycle, and nothing is exported yet
      by_cases entered : module ∈ run.inProgress
      · rw [if_pos entered]
        exact RunM.Ensures.pure (circular known entered)
      · rw [if_neg entered]
        have looked : RunM.Ensures (RunM.document module) ((Step.enter module).apply run)
            fun document later => document = host.sources root module ∧ later = run.inside module :=
          ⟨(reads.document module).1, rfl⟩
        refine RunM.Ensures.bindPerform (RunM.Ensures.bind looked ?_)
        rintro _ _ ⟨rfl, rfl⟩
        exact RunM.Ensures.bind (walked known entered) fun _ _ left => left

/-- **Resolving a module**, where the modules that it names can be resolved. -/
theorem ensures_exportModule {resolveModule : String → RunM (List SymbolId)} {module : String}
    {run : Run} (sound : run.Sound host root)
    (hresolve : run.resolved.get? module = none → module ∉ run.inProgress →
      (host.sources root module).isSome →
      ResolvesFrom host root (module :: run.inProgress) resolveModule) :
    RunM.Ensures (exportModule resolveModule module) run (run.Outcome host root module) := by
  refine RunM.Ensures.exportModule sound.reads (fun result known => ?_) (fun _ entered => ?_)
    fun unresolved outside => ?_
  · exact ⟨sound, Run.Keeps.refl run, SymbolTable.Extends.refl _, rfl, rfl, Or.inl known⟩
  · exact ⟨sound, Run.Keeps.refl run, SymbolTable.Extends.refl _, rfl, rfl, Or.inr ⟨entered, rfl⟩⟩
  · have walked := (Frame.enter sound unresolved outside).exportDocument
      (hresolve unresolved outside)
    exact walked.mono fun _ _ frame => frame.leave unresolved

/-! ## §5. How deep resolution nests -/

/-- The documents of the host that no module in progress stands for. -/
def openDocuments (host : Host) (root : String) (stack : List String) : List String :=
  host.keys.filter fun name => decide (∀ module ∈ stack, ModulePath.IsNormal module →
    ModulePath.isRelative module = true → ModulePath.resolve module root ≠ name)

/-- A module with a document takes that document when it is entered. -/
theorem length_openDocuments_cons_lt {module : String} {stack : List String}
    (hnormal : ModulePath.IsNormal module) (hdocument : (host.sources root module).isSome)
    (outside : module ∉ stack) :
    (openDocuments host root (module :: stack)).length
      < (openDocuments host root stack).length := by
  obtain ⟨document, hd⟩ := Option.isSome_iff_exists.1 hdocument
  have hrel := Host.isRelative_of_sources hd
  -- entering the module closes the document that it is read from, and no other
  have split : openDocuments host root (module :: stack)
      = (openDocuments host root stack).filter (ModulePath.resolve module root ≠ ·) := by
    unfold openDocuments
    rw [List.filter_filter]
    congr 1
    funext name
    simp [hnormal, hrel]
  rw [split]
  apply List.length_filter_lt_length_iff_exists.2
  refine ⟨ModulePath.resolve module root, ?_, by simp⟩
  rw [Host.sources, if_pos hrel] at hd
  refine List.mem_filter.2 ⟨Pairs.mem_keys_of_find?_eq_some hd, ?_⟩
  rw [decide_eq_true_iff]
  -- the document was open: another module for it would be the same path
  intro other hother hnormal' hrel' same
  exact outside (ModulePath.resolve_injective hnormal' hrel' hnormal hrel same ▸ hother)

theorem length_openDocuments_le (host : Host) (root : String) (stack : List String) :
    (openDocuments host root stack).length ≤ host.size := by
  refine Nat.le_trans (List.length_filter_le _ _) ?_
  show (host.toList.map Prod.fst).length ≤ host.toList.length
  exact Nat.le_of_eq (List.length_map Prod.fst)

/-- Resolution may nest as deep as there are documents left. -/
theorem resolvesFrom_exportNested (depth : Nat) (stack : List String)
    (enough : (openDocuments host root stack).length < depth) :
    ResolvesFrom host root stack (exportNested depth) := by
  induction depth generalizing stack with
  | zero => exact absurd enough (Nat.not_lt_zero _)
  | succ depth ih =>
      rintro source run hnormal sound rfl
      refine ensures_exportModule sound fun _ outside hdocument => ih _ ?_
      have taken := length_openDocuments_cons_lt hnormal hdocument outside
      omega

/-- **The exports of any module are resolved**, whatever has been resolved
before. -/
theorem ensures_exportAll {run : Run} (sound : run.Sound host root) (module : String) :
    RunM.Ensures (exportAll module) run (run.Outcome host root module) := by
  refine RunM.Ensures.bindGet ?_
  rw [sound.host_eq]
  refine ensures_exportModule sound fun _ _ _ => ?_
  apply resolvesFrom_exportNested
  have bound := length_openDocuments_le host root (module :: run.inProgress)
  omega

/-- After that, the exports are known. -/
theorem Run.Outcome.resolved_of_idle {start run : Run} {module : String} {result : List SymbolId}
    (h : start.Outcome host root module result run) (idle : start.inProgress = []) :
    run.resolved.get? module = some result := by
  rcases h.answer with known | ⟨entered, -⟩
  · exact known
  · rw [idle] at entered
    cases entered

/-! ## §6. Modules that have been resolved -/

/-- All exports are those of a module, in which others may nest as deep as the host has
documents. -/
theorem exportAll_apply (module : String) (run : Run) :
    exportAll module run
      = exportModule (exportNested (run.store.host.size + 1)) module run :=
  RunM.bindGet_apply (fun run => exportNested (exportDepth run.store.host) module) run

/-- The exports of a resolved module are looked up, and nothing else happens. -/
theorem exportAll_of_resolved {run : Run} {module : String} {ids : List SymbolId}
    (known : run.resolved.get? module = some ids) : exportAll module run = (ids, run) := by
  rw [exportAll_apply]
  have looked : RunM.Ensures (exportModule (exportNested (run.store.host.size + 1)) module) run
      fun result later => (result, later) = (ids, run) := by
    refine RunM.Ensures.bindGet ?_
    rw [known]
    exact RunM.Ensures.pure rfl
  exact looked

end FlatBundle
