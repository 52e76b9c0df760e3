/-
  FlatBundle.Proofs.Run.Mirror
  ────────────────────────────
  **TWO RUNS THAT DO THE SAME.**

  A library may be moved: another host has its documents under other names, and another root
  leads to them (`Relocation`).  A run on the one host is then mirrored by a run on the
  other.  The two know the same modules, by the same names, and have the same symbols and
  exports; only what their stores ask for is different.

    • a step about a module in normal form keeps two runs mirrored (`Run.Mirrors.apply`),
    • computations correspond if, from mirrored runs, they have the same result and end in
      mirrored runs; this is kept by sequencing (`RunM.congruence_corresponds`), so that it
      is followed through whole walks.
-/
import FlatBundle.Proofs.Export.Nesting
import FlatBundle.Proofs.Run.Identifiers

namespace FlatBundle

variable {α β : Type}

/-! ## §1. A library that is moved -/

/-- A library at two places: two hosts that have the same documents for the modules of two
roots, by all names in normal form. -/
structure Relocation where
  host : Host
  root : String
  moved : Host
  place : String
  same : ∀ module, ModulePath.IsNormal module →
    moved.sources place module = host.sources root module

variable {r : Relocation}

/-- The run on the library is mirrored by a run on the library that was moved. -/
structure Run.Mirrors (r : Relocation) (run other : Run) : Prop where
  reads : run.Reads r.host r.root
  reads' : other.Reads r.moved r.place
  normal : run.Normal
  symbols : other.symbols = run.symbols
  resolved : other.resolved = run.resolved
  inProgress : other.inProgress = run.inProgress
  rootExports : other.rootExports = run.rootExports

theorem Run.mirrors_start (r : Relocation) :
    Run.Mirrors r (Run.start r.host r.root) (Run.start r.moved r.place) where
  reads := ⟨rfl, rfl, Store.faithful_new r.host r.root⟩
  reads' := ⟨rfl, rfl, Store.faithful_new r.moved r.place⟩
  normal := Run.normal_start r.host r.root
  symbols := rfl
  resolved := rfl
  inProgress := rfl
  rootExports := rfl

/-! ## §2. Steps -/

/-- **One step, made on both sides**, about a module in normal form or about none. -/
theorem Run.Mirrors.apply {run other : Run} (h : Run.Mirrors r run other) {step : Step}
    (about : ∀ module, step.module? = some module → ModulePath.IsNormal module) :
    Run.Mirrors r (step.apply run) (step.apply other) := by
  have normal : (run.after [step]).Normal :=
    h.normal.after fun _ mem => List.mem_singleton.1 mem ▸ about
  refine ⟨h.reads.apply step, h.reads'.apply step, normal, ?_, ?_, ?_, ?_⟩
  all_goals
    cases step with
    | _ => simp only [Step.apply, h.symbols, h.resolved, h.inProgress, h.rootExports]

theorem Run.Mirrors.apply_of_some {run other : Run} (h : Run.Mirrors r run other) (step : Step)
    {module : String} (about : step.module? = some module)
    (normal : ModulePath.IsNormal module) :
    Run.Mirrors r (step.apply run) (step.apply other) :=
  h.apply fun _ same => Option.some.inj (about.symm.trans same) ▸ normal

theorem Run.Mirrors.apply_of_none {run other : Run} (h : Run.Mirrors r run other) (step : Step)
    (about : step.module? = none) : Run.Mirrors r (step.apply run) (step.apply other) :=
  h.apply fun _ same => by cases about.symm.trans same

/-! ## §3. Computations -/

/-- From mirrored runs, the two computations have the same result, and end in mirrored
runs. -/
def RunM.Corresponds (r : Relocation) (x y : RunM α) : Prop :=
  ∀ run other, Run.Mirrors r run other →
    (x run).1 = (y other).1 ∧ Run.Mirrors r (x run).2 (y other).2

namespace RunM

theorem congruence_corresponds (r : Relocation) : Congruence fun _ x y => x.Corresponds r y where
  pure := fun _ _ _ mirrors => ⟨rfl, mirrors⟩
  bindGet := fun related run other mirrors =>
    related run other mirrors.symbols.symm run other mirrors
  bind := by
    intro α β x y f g hx hf run other mirrors
    obtain ⟨same, there⟩ := hx run other mirrors
    show (f (x run).1 (x run).2).1 = (g (y other).1 (y other).2).1
      ∧ Run.Mirrors r (f (x run).1 (x run).2).2 (g (y other).1 (y other).2).2
    rw [← same]
    exact hf (x run).1 (x run).2 (y other).2 there

theorem Corresponds.bind {x y : RunM α} {f g : α → RunM β} (h : x.Corresponds r y)
    (h' : ∀ a, (f a).Corresponds r (g a)) : (x >>= f).Corresponds r (y >>= g) :=
  (congruence_corresponds r).bind h h'

theorem corresponds_pure (a : α) : (Pure.pure a : RunM α).Corresponds r (Pure.pure a) :=
  (congruence_corresponds r).pure a

/-- What comes next may count on the two runs being mirrored. -/
theorem Corresponds.bindGet {f g : Run → RunM β}
    (h : ∀ run other, Run.Mirrors r run other → (f run).Corresponds r (g other)) :
    (MonadState.get >>= f).Corresponds r (MonadState.get >>= g) :=
  fun run other mirrors => h run other mirrors run other mirrors

theorem corresponds_perform_of_some (step : Step) {module : String}
    (about : step.module? = some module) (normal : ModulePath.IsNormal module) :
    (perform step).Corresponds r (perform step) :=
  fun _ _ mirrors => ⟨rfl, mirrors.apply_of_some step about normal⟩

theorem corresponds_perform_of_none (step : Step) (about : step.module? = none) :
    (perform step).Corresponds r (perform step) :=
  fun _ _ mirrors => ⟨rfl, mirrors.apply_of_none step about⟩

theorem corresponds_document {module : String} (h : ModulePath.IsNormal module) :
    (document module).Corresponds r (document module) := by
  intro run other mirrors
  refine ⟨?_, mirrors.apply_of_some (.document module) rfl h⟩
  show (run.store.get module).1 = (other.store.get module).1
  rw [(mirrors.reads.document module).1, (mirrors.reads'.document module).1, r.same module h]

theorem corresponds_symbolOf {module : String} (h : ModulePath.IsNormal module) (name : String) :
    (symbolOf module name).Corresponds r (symbolOf module name) := by
  intro run other mirrors
  refine ⟨?_, mirrors.apply_of_some (.symbolOf module name) rfl h⟩
  show (run.symbols.symbolOf module name).1 = (other.symbols.symbolOf module name).1
  rw [mirrors.symbols]

theorem corresponds_link (exported newName : SymbolId) :
    (link exported newName).Corresponds r (link exported newName) :=
  corresponds_perform_of_none (.link exported newName) rfl

theorem corresponds_canonical (id : SymbolId) : (canonical id).Corresponds r (canonical id) := by
  intro run other mirrors
  have settled : Run.Mirrors r ((Step.settle id).apply run) ((Step.settle id).apply other) :=
    mirrors.apply_of_none (.settle id) rfl
  unfold canonical
  rw [mirrors.symbols]
  cases run.symbols.canonical? id with
  | some canonical => exact ⟨rfl, mirrors⟩
  | none =>
      refine ⟨?_, ?_⟩
      · show (run.symbols.settle run.rootExports id).1 = (run.symbols.settle other.rootExports id).1
        rw [mirrors.rootExports]
      · have both := settled
        rw [Step.apply, Step.apply, mirrors.symbols] at both
        exact both

end RunM

/-! ## §4. Computations that may fail -/

namespace ConvertM

theorem corresponds_bind {x y : ConvertM α} {f g : α → ConvertM β}
    (h : x.run.Corresponds r y.run) (h' : ∀ a, (f a).run.Corresponds r (g a).run) :
    (x >>= f).run.Corresponds r (y >>= g).run :=
  (RunM.congruence_corresponds r).convertM.bind h h'

theorem corresponds_lift {x y : RunM α} (h : x.Corresponds r y) :
    (liftM x : ConvertM α).run.Corresponds r (liftM y : ConvertM α).run :=
  (RunM.congruence_corresponds r).lift h

theorem corresponds_bindGet {f g : Run → ConvertM β}
    (h : ∀ run other, Run.Mirrors r run other → (f run).run.Corresponds r (g other).run) :
    (MonadState.get >>= f).run.Corresponds r (MonadState.get >>= g).run :=
  fun run other mirrors => h run other mirrors run other mirrors

end ConvertM

end FlatBundle
