/-
  FlatBundle.Proofs.Export.Documented
  ───────────────────────────────────
  **AN ALIAS IS A NAME OF A DOCUMENT.**

  Links are made while the document of a module is walked, and only for names of this
  module (`keepsDocumented_exportAs`).  So whatever exports another symbol belongs to a
  module that has a document, however modules export from each other; and a module that
  has a document is one of the library.
-/
import FlatBundle.Proofs.Run.Mirror
import FlatBundle.Proofs.Run.Turns

namespace FlatBundle

variable {α β : Type} {host : Host} {root : String} {exported : List SymbolId}

/-! ## §1. Runs -/

/-- The symbol that the step makes an alias. -/
def Step.alias? : Step → Option SymbolId
  | .link _ newName => some newName
  | _ => none

/-- What exports another symbol is a name of a module that has a document. -/
structure Run.Documented (host : Host) (root : String) (run : Run) : Prop where
  reads : run.Reads host root
  aliases : ∀ id source, run.symbols.exports id = some source →
    ∃ module name, run.symbols.key? id = some (module, name)
      ∧ (host.sources root module).isSome

namespace Run.Documented

variable {run later : Run}

theorem start (host : Host) (root : String) : (Run.start host root).Documented host root where
  reads := ⟨rfl, rfl, Store.faithful_new host root⟩
  aliases := by
    intro id source link
    exact absurd (SymbolTable.lt_size_of_exports link) (Nat.not_lt_zero id)

/-- Symbols may be added, but no links. -/
theorem of_grows (h : run.Documented host root) (reads : later.Reads host root)
    (grows : run.symbols.Grows later.symbols)
    (same : ∀ id, later.symbols.exports id = run.symbols.exports id) :
    later.Documented host root where
  reads := reads
  aliases := by
    intro id source link
    rw [same] at link
    obtain ⟨module, name, key, documented⟩ := h.aliases id source link
    exact ⟨module, name, grows.key?_eq_some key, documented⟩

theorem of_same_links (h : run.Documented host root) (reads : later.Reads host root)
    (same : run.symbols.SameLinks later.symbols) : later.Documented host root :=
  h.of_grows reads same.grows same.exports

/-- A step that makes no alias. -/
theorem apply (h : run.Documented host root) (step : Step) (none : step.alias? = none) :
    (step.apply run).Documented host root := by
  have reads := h.reads.apply step
  cases step with
  | symbolOf module name =>
      exact h.of_grows reads (SymbolTable.Extends.symbolOf run.symbols module name).grows
        (run.symbols.exports_symbolOf module name)
  | link exported newName => cases none
  | settle id =>
      exact h.of_same_links reads
        (SymbolTable.SameLinks.modify run.symbols id (fun _ => rfl) fun _ => rfl)
  | mark id =>
      exact h.of_same_links reads
        (SymbolTable.SameLinks.modify run.symbols id (fun _ => rfl) fun _ => rfl)
  | store id value =>
      exact h.of_same_links reads
        (SymbolTable.SameLinks.modify run.symbols id (fun _ => rfl) fun _ => rfl)
  | document | enter | leave | roots | entry | answer | convert =>
      exact h.of_grows reads (SymbolTable.Grows.refl _) fun _ => rfl

/-- A link is made for a name of a module that has a document. -/
theorem link (h : run.Documented host root) {module name : String} {newName : SymbolId}
    (key : run.symbols.key? newName = some (module, name))
    (documented : (host.sources root module).isSome) (symbol : SymbolId) :
    ((Step.link symbol newName).apply run).Documented host root where
  reads := h.reads.apply (.link symbol newName)
  aliases := by
    intro id source link
    have keys := run.symbols.key?_link symbol newName id
    replace link : (run.symbols.link symbol newName).exports id = some source := link
    have old : run.symbols.exports id = some source →
        ∃ module name, (run.symbols.link symbol newName).key? id = some (module, name)
          ∧ (host.sources root module).isSome := by
      intro link
      obtain ⟨module, name, key, documented⟩ := h.aliases id source link
      exact ⟨module, name, keys.trans key, documented⟩
    rcases run.symbols.link_cases symbol newName with ⟨-, same⟩ | ⟨ne, free⟩
    · exact old (same ▸ link)
    · rw [SymbolTable.exports_link ne free (SymbolTable.lt_size_of_key? key)] at link
      split at link
      · next here => exact ⟨module, name, keys.trans (here ▸ key), documented⟩
      · exact old link

end Run.Documented

/-! ## §2. Resolving exports -/

/-- The computation makes aliases of documented names only. -/
def RunM.KeepsDocumented (host : Host) (root : String) (x : RunM α) : Prop :=
  ∀ run : Run, run.Documented host root →
    x.Ensures run fun _ later => later.Documented host root

theorem RunM.congruence_keepsDocumented (host : Host) (root : String) :
    Congruence fun _ x _ => x.KeepsDocumented host root where
  pure := fun _ _ documented => documented
  bindGet := fun keeps run documented => keeps run run rfl run documented
  bind := fun hx hf run documented => hf _ _ (hx run documented)

theorem RunM.keepsDocumented_symbolOf (module name : String) :
    (RunM.symbolOf module name).KeepsDocumented host root :=
  fun _ documented => documented.apply (.symbolOf module name) rfl

/-- **An alias is made** for a name of the module whose document is walked. -/
theorem keepsDocumented_exportAs {module : String} (documented : (host.sources root module).isSome)
    (symbol : SymbolId) (name : String) (result : List SymbolId) :
    (exportAs module symbol name result).KeepsDocumented host root := by
  intro run h
  have looked : RunM.Ensures (RunM.symbolOf module name) run fun newName later =>
      later.Documented host root ∧ later.symbols.key? newName = some (module, name) :=
    ⟨RunM.keepsDocumented_symbolOf module name run h, run.symbols.key?_symbolOf module name⟩
  refine RunM.Ensures.bind looked ?_
  intro newName run₁ hstep
  obtain ⟨h₁, key⟩ := hstep
  split
  · exact RunM.Ensures.pure h₁
  · exact RunM.Ensures.bindPerform (RunM.Ensures.pure (h₁.link key documented symbol))

theorem keepsDocumented_exportModule {resolveModule : String → RunM (List SymbolId)}
    (resolve : ∀ module, (resolveModule module).KeepsDocumented host root) (module : String) :
    (exportModule resolveModule module).KeepsDocumented host root := by
  intro run h
  have inside : (run.inside module).Documented host root :=
    (h.apply (.enter module) rfl).apply (.document module) rfl
  have walk : (exportDocument resolveModule module (host.sources root module)).KeepsDocumented
      host root := by
    cases found : host.sources root module with
    | none => exact (RunM.congruence_keepsDocumented host root).pure []
    | some document =>
        have documented : (host.sources root module).isSome := by
          rw [found]
          rfl
        exact (RunM.congruence_keepsDocumented host root).exportDocument
          (RunM.keepsDocumented_symbolOf module) (fun _ => RunM.keepsDocumented_symbolOf _)
          (keepsDocumented_exportAs documented) (g := resolveModule) (fun _ => resolve _)
          (fun name _ h => h.apply (.entry module name) rfl) (some document)
  refine RunM.Ensures.exportModule h.reads (fun _ _ => h) (fun _ _ => h) fun _ _ => ?_
  exact (walk _ inside).mono fun result _ h => h.apply (.leave module result) rfl

theorem keepsDocumented_exportNested (depth : Nat) (module : String) :
    (exportNested depth module).KeepsDocumented host root := by
  induction depth generalizing module with
  | zero => exact (RunM.congruence_keepsDocumented host root).pure []
  | succ depth ih => exact keepsDocumented_exportModule ih module

/-- **Resolving the exports of any module makes aliases of documented names only.** -/
theorem keepsDocumented_exportAll (module : String) :
    (exportAll module).KeepsDocumented host root :=
  fun run h => RunM.Ensures.bindGet
    (keepsDocumented_exportNested (exportDepth run.store.host) module run h)

/-! ## §3. Histories -/

theorem Run.Turn.documented {run : Run} {steps : List Step} (h : run.Turn exported steps)
    (documented : run.Documented host root) : (run.after steps).Documented host root := by
  cases h with
  | @visit module _ performs _ =>
      rw [← performs.after]
      exact keepsDocumented_exportAll module run documented
  | document module => exact documented.apply (.document module) rfl
  | @symbolOf module _ name => exact documented.apply (.symbolOf module name) rfl
  | roots => exact documented.apply (.roots exported) rfl
  | settle _ id => exact documented.apply (.settle id) rfl
  | answer module => exact documented.apply (.answer module) rfl
  | mark id => exact documented.apply (.mark id) rfl
  | convert id => exact documented.apply (.convert id) rfl
  | store id value => exact documented.apply (.store id value) rfl

theorem Run.Turns.documented {run : Run} {steps : List Step} (h : run.Turns exported steps)
    (documented : run.Documented host root) : (run.after steps).Documented host root := by
  induction h with
  | nil run => exact documented
  | cons turn _ ih =>
      rw [Run.after_append]
      exact ih (turn.documented documented)

end FlatBundle
