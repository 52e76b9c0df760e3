/-
  FlatBundle.Proofs.Run.Turns
  ───────────────────────────
  **THE MOMENTS AT WHICH NO MODULE IS IN PROGRESS.**

  At such a moment a run takes a turn (`Run.Turn`): it resolves the exports of a module,
  from entering it to leaving it, or it makes one small step.  A history of turns passes
  through idle moments between them, and through no others.

  What holds at every idle moment is `Run.Steady`: the run is sound, and an identity that
  is stored is the one that the table gives now.  Each turn keeps this
  (`Run.Turn.steady`), so it holds at all idle moments of a history; and from one idle
  moment to a later one the links of old symbols stay (`Run.Turns.steady`).
-/
import FlatBundle.Proofs.Export.Visits

namespace FlatBundle

variable {host : Host} {root : String} {exported : List SymbolId}

/-! ## §1. Turns -/

/-- What a run does from a moment at which no module is in progress to the next one.
`exported` are the exports of the root. -/
inductive Run.Turn (exported : List SymbolId) : Run → List Step → Prop where
  /-- The exports of a module are resolved. -/
  | visit {run : Run} {module : String} {steps : List Step}
      (performs : (exportAll module).Performs run steps) (visit : run.Visit module steps) :
      Turn exported run steps
  | document (run : Run) (module : String) : Turn exported run [.document module]
  /-- A symbol of a module whose exports are known. -/
  | symbolOf {run : Run} {module : String} (known : run.Knows module) (name : String) :
      Turn exported run [.symbolOf module name]
  | roots {run : Run} (bounded : ∀ id ∈ exported, id < run.symbols.size) :
      Turn exported run [.roots exported]
  /-- An identity is stored once the exports of the root are settled. -/
  | settle {run : Run} (set : run.rootExports = exported) (id : SymbolId) :
      Turn exported run [.settle id]
  | answer (run : Run) (module : String) : Turn exported run [.answer module]
  | mark (run : Run) (id : SymbolId) : Turn exported run [.mark id]
  | convert (run : Run) (id : SymbolId) : Turn exported run [.convert id]
  | store (run : Run) (id : SymbolId) (value : Value) : Turn exported run [.store id value]

/-- A history made of turns. -/
inductive Run.Turns (exported : List SymbolId) : Run → List Step → Prop where
  | nil (run : Run) : Turns exported run []
  | cons {run : Run} {first second : List Step} (turn : run.Turn exported first)
      (rest : (run.after first).Turns exported second) : Turns exported run (first ++ second)

theorem Run.Turns.single {run : Run} {steps : List Step} (turn : run.Turn exported steps) :
    run.Turns exported steps := by
  have whole := Run.Turns.cons turn (.nil _)
  rw [List.append_nil] at whole
  exact whole

theorem Run.Turns.append {run : Run} {first second : List Step} (h : run.Turns exported first)
    (h' : (run.after first).Turns exported second) : run.Turns exported (first ++ second) := by
  induction h with
  | nil run => exact h'
  | cons turn _ ih =>
      rw [List.append_assoc]
      rw [Run.after_append] at h'
      exact .cons turn (ih h')

/-- Within a turn, no module is in progress at the two ends only. -/
theorem Run.Turn.ends {run : Run} {steps : List Step} (h : run.Turn exported steps)
    {first : List Step} (part : first <+: steps) (idle : (run.after first).inProgress = []) :
    first = [] ∨ first = steps := by
  have small : ∀ step : Step, first <+: [step] → first = [] ∨ first = [step] := by
    intro step part
    rcases List.prefix_cons_iff.1 part with nothing | ⟨rest, rfl, there⟩
    · exact Or.inl nothing
    · rw [List.prefix_nil.1 there]
      exact Or.inr rfl
  cases h with
  | visit _ visit =>
      by_cases begun : first = []
      · exact Or.inl begun
      by_cases finished : first = steps
      · exact Or.inr finished
      · exact absurd idle (visit.busy part begun finished)
  | document | symbolOf | roots | settle | answer | mark | convert | store => exact small _ part

/-! ## §2. Steady runs -/

/-- What holds of a run whenever no module is in progress. -/
structure Run.Steady (host : Host) (root : String) (exported : List SymbolId) (run : Run) :
    Prop where
  sound : run.Sound host root
  idle : run.inProgress = []
  /-- Once the exports of the root are settled, they are symbols of the table. -/
  bounded : run.rootExports = exported → ∀ id ∈ exported, id < run.symbols.size
  /-- A stored identity is what the table gives now. -/
  fresh : ∀ id canonical, run.symbols.canonical? id = some canonical →
    (∀ id ∈ exported, id < run.symbols.size)
      ∧ canonical = run.symbols.canonicalize exported id

theorem Run.steady_start (host : Host) (root : String) (exported : List SymbolId) :
    (Run.start host root).Steady host root exported where
  sound := Run.sound_start host root
  idle := rfl
  bounded := by
    rintro rfl id hid
    cases hid
  fresh := by
    intro id canonical hc
    cases hc

/-- Symbols and links are added. -/
theorem Run.Steady.of_extends {run later : Run} (h : run.Steady host root exported)
    (sound : later.Sound host root) (idle : later.inProgress = [])
    (roots : later.rootExports = run.rootExports)
    (symbols : run.symbols.Extends later.symbols) : later.Steady host root exported where
  sound := sound
  idle := idle
  bounded := by
    intro set id hid
    exact Nat.lt_of_lt_of_le (h.bounded (roots ▸ set) id hid) symbols.size_le
  fresh := by
    intro id canonical hc
    rw [symbols.canonical?] at hc
    obtain ⟨bounded, same⟩ := h.fresh id canonical hc
    obtain ⟨symbol, hs, -⟩ := Option.bind_eq_some_iff.1 hc
    refine ⟨fun id hid => Nat.lt_of_lt_of_le (bounded id hid) symbols.size_le, ?_⟩
    rw [same]
    exact (SymbolTable.canonicalize_grows symbols.grows h.sound.linked sound.linked bounded
      (SymbolTable.lt_size_of_get? hs)).symm

/-- Symbols change in other things than names and links. -/
theorem Run.Steady.of_same_links {run : Run} (h : run.Steady host root exported)
    {symbols : SymbolTable} {log : List Step} (same : run.symbols.SameLinks symbols)
    (fresh : ∀ id canonical, symbols.canonical? id = some canonical →
      (∀ id ∈ exported, id < run.symbols.size)
        ∧ canonical = run.symbols.canonicalize exported id) :
    Run.Steady host root exported { run with symbols := symbols, log := log } where
  sound := h.sound.of_same_links same
  idle := h.idle
  bounded := fun set id hid => Nat.lt_of_lt_of_le (h.bounded set id hid) same.grows.size_le
  fresh := by
    intro id canonical hc
    obtain ⟨bounded, here⟩ := fresh id canonical hc
    obtain ⟨symbol, hs, -⟩ := Option.bind_eq_some_iff.1 hc
    have old := Nat.lt_of_lt_of_le (SymbolTable.lt_size_of_get? hs) same.symm.grows.size_le
    refine ⟨fun id hid => Nat.lt_of_lt_of_le (bounded id hid) same.grows.size_le, ?_⟩
    rw [here]
    exact (SymbolTable.canonicalize_grows same.grows h.sound.linked (same.linked h.sound.linked)
      bounded old).symm

/-- It does not matter what the log says. -/
theorem Run.Steady.noted {run : Run} (h : run.Steady host root exported) (log : List Step) :
    Run.Steady host root exported { run with log := log } :=
  ⟨h.sound.noted log, h.idle, h.bounded, h.fresh⟩

/-- The identity of a symbol is stored. -/
theorem Run.Steady.settle {run : Run} (h : run.Steady host root exported)
    (set : run.rootExports = exported) (id : SymbolId) :
    ((Step.settle id).apply run).Steady host root exported := by
  subst set
  let store : Symbol → Symbol := fun symbol =>
    { symbol with canonical := some (run.symbols.canonicalize run.rootExports id) }
  have same : run.symbols.SameLinks (run.symbols.modify id store) :=
    SymbolTable.SameLinks.modify run.symbols id (fun _ => rfl) fun _ => rfl
  refine h.of_same_links same ?_
  intro other canonical hc
  change ((run.symbols.modify id store).get? other).bind Symbol.canonical = some canonical at hc
  rw [SymbolTable.get?_modify] at hc
  split at hc
  -- the identity that is stored is the one that the table gives
  · next here =>
      obtain ⟨symbol, hs, hc⟩ := Option.bind_eq_some_iff.1 hc
      obtain ⟨_, -, rfl⟩ := Option.map_eq_some_iff.1 hs
      rw [here]
      exact ⟨h.bounded rfl, (Option.some.inj hc).symm⟩
  · exact h.fresh other canonical hc

/-- A symbol is changed in something else than its identity. -/
theorem Run.Steady.change {run : Run} (h : run.Steady host root exported) (id : SymbolId)
    {change : Symbol → Symbol} {log : List Step}
    (exports : ∀ symbol, (change symbol).exports = symbol.exports)
    (aliases : ∀ symbol, (change symbol).aliases = symbol.aliases)
    (canonical : ∀ symbol, (change symbol).canonical = symbol.canonical) :
    Run.Steady host root exported
      { run with symbols := run.symbols.modify id change, log := log } := by
  refine h.of_same_links (SymbolTable.SameLinks.modify _ id exports aliases) ?_
  intro other stored hc
  exact h.fresh other stored ((run.symbols.canonical?_modify id other canonical).symm.trans hc)

/-! ## §3. Turns keep runs steady -/

/-- From one idle moment to a later one, links of old symbols and known exports stay. -/
structure Run.Passes (run later : Run) : Prop where
  grows : run.symbols.Grows later.symbols
  keeps : run.Keeps later

theorem Run.Passes.refl (run : Run) : run.Passes run :=
  ⟨SymbolTable.Grows.refl _, Run.Keeps.refl run⟩

theorem Run.Passes.trans {first second third : Run} (h : first.Passes second)
    (h' : second.Passes third) : first.Passes third :=
  ⟨h.grows.trans h'.grows, h.keeps.trans h'.keeps⟩

theorem Run.Passes.of_grows {run later : Run} (grows : run.symbols.Grows later.symbols)
    (resolved : later.resolved = run.resolved) : run.Passes later :=
  ⟨grows, fun _ _ hk => grows.key?_eq_some hk, fun _ _ hr => resolved ▸ hr⟩

theorem Run.Passes.of_modify (run : Run) (id : SymbolId) {change : Symbol → Symbol}
    {log : List Step} (exports : ∀ symbol, (change symbol).exports = symbol.exports)
    (aliases : ∀ symbol, (change symbol).aliases = symbol.aliases) :
    run.Passes { run with symbols := run.symbols.modify id change, log := log } :=
  .of_grows (SymbolTable.SameLinks.modify run.symbols id exports aliases).grows rfl

/-- **A turn keeps a run steady**, and takes back no link. -/
theorem Run.Turn.steady {run : Run} {steps : List Step} (h : run.Turn exported steps)
    (steady : run.Steady host root exported) :
    (run.after steps).Steady host root exported ∧ run.Passes (run.after steps) := by
  cases h with
  | @visit module _ performs _ =>
      rw [← performs.after]
      have outcome := ensures_exportAll steady.sound module
      exact ⟨steady.of_extends outcome.sound (outcome.stack.trans steady.idle) outcome.rootExports
        outcome.symbols, outcome.symbols.grows, outcome.keeps⟩
  | document module =>
      obtain ⟨-, sound, -⟩ := steady.sound.document module
      exact ⟨steady.of_extends sound steady.idle rfl (SymbolTable.Extends.refl _),
        .of_grows (SymbolTable.Grows.refl _) rfl⟩
  | @symbolOf module known name =>
      have symbols := SymbolTable.Extends.symbolOf run.symbols module name
      exact ⟨steady.of_extends (steady.sound.symbolOf known name) steady.idle rfl symbols,
        .of_grows symbols.grows rfl⟩
  | roots bounded =>
      refine ⟨⟨?_, steady.idle, fun _ => bounded, steady.fresh⟩,
        .of_grows (SymbolTable.Grows.refl _) rfl⟩
      exact ⟨steady.sound.host_eq, steady.sound.root_eq, steady.sound.faithful,
        steady.sound.linked, steady.sound.knows, steady.sound.lists, steady.sound.normal⟩
  | settle set id =>
      exact ⟨steady.settle set id, .of_modify run id (fun _ => rfl) fun _ => rfl⟩
  | answer | convert =>
      exact ⟨steady.noted _, .of_grows (SymbolTable.Grows.refl _) rfl⟩
  | mark id =>
      exact ⟨steady.change id (fun _ => rfl) (fun _ => rfl) fun _ => rfl,
        .of_modify run id (fun _ => rfl) fun _ => rfl⟩
  | store id value =>
      exact ⟨steady.change id (fun _ => rfl) (fun _ => rfl) fun _ => rfl,
        .of_modify run id (fun _ => rfl) fun _ => rfl⟩

/-- **At every idle moment of a history the run is steady**, and from there to the end no
link of a symbol that is there and no known exports change. -/
theorem Run.Turns.steady {run : Run} {steps : List Step} (h : run.Turns exported steps)
    (steady : run.Steady host root exported) {first : List Step} (part : first <+: steps)
    (idle : (run.after first).inProgress = []) :
    (run.after first).Steady host root exported ∧ (run.after first).Passes (run.after steps) := by
  induction h generalizing first with
  | nil run =>
      rw [List.prefix_nil.1 part]
      exact ⟨steady, Run.Passes.refl run⟩
  | @cons run _ _ hturn _ ih =>
      obtain ⟨steady', passes⟩ := hturn.steady steady
      obtain ⟨-, passes'⟩ := ih steady' List.nil_prefix steady'.idle
      rw [Run.after_append]
      rcases prefix_append_cases part with here | ⟨more, rfl, there⟩
      -- inside the first turn there are its two ends
      · rcases hturn.ends here idle with rfl | rfl
        · exact ⟨steady, passes.trans passes'⟩
        · exact ⟨steady', passes'⟩
      · rw [Run.after_append] at idle ⊢
        exact ih steady' there idle

end FlatBundle
