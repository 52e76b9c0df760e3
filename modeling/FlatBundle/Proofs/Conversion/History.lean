/-
  FlatBundle.Proofs.Conversion.History
  ────────────────────────────────────
  **CONVERSION, STEP BY STEP.**

  While values are converted, a run takes turns: it looks at documents, resolves exports,
  creates symbols of modules that are known, stores identities, and asks for values and
  stores them.  `RunM.Proceeds` says of a computation that its history, from any idle run,
  is such a sequence of turns, in which nothing is done twice.

  The relation follows how computations are put together, so the walk over a value
  proceeds if the conversion of symbols does (`ConvertM.Walks.value`).  The value of a
  symbol is asked for before the walk, which is orderly by itself; so it is asked for once,
  however deep conversion nests (`proceeds_convertNested`).
-/
import FlatBundle.Proofs.Conversion.Walk
import FlatBundle.Proofs.Run.Turns

namespace FlatBundle

variable {α β : Type} {exported roots : List SymbolId}

/-! ## §1. Histories between idle moments -/

/-- The history is made of turns, does nothing twice, and leaves the exports of the root
alone. -/
structure Run.Proceeds (exported : List SymbolId) (run : Run) (steps : List Step) : Prop where
  turns : run.Turns exported steps
  orderly : run.Orderly steps
  roots : (run.after steps).rootExports = run.rootExports

namespace Run.Proceeds

theorem nil (run : Run) : run.Proceeds exported [] :=
  ⟨.nil run, Run.Orderly.nil run, rfl⟩

theorem append {run : Run} {first second : List Step} (h : run.Proceeds exported first)
    (h' : (run.after first).Proceeds exported second) : run.Proceeds exported (first ++ second) where
  turns := h.turns.append h'.turns
  orderly := h.orderly.append h'.orderly
  roots := by rw [Run.after_append, h'.roots, h.roots]

/-- The exports of a module are resolved. -/
theorem visit {run : Run} {module : String} {steps : List Step}
    (performs : (exportAll module).Performs run steps) (h : run.Visit module steps) :
    run.Proceeds exported steps :=
  ⟨.single (.visit performs h), h.orderly, h.roots⟩

/-- One small step, in which no module is entered or left and no value is asked for. -/
theorem single {run : Run} {step : Step} (turn : run.Turn exported [step])
    (stack : (step.apply run).inProgress = run.inProgress)
    (roots : (step.apply run).rootExports = run.rootExports) (entered : step.entered? = none)
    (left : step.left? = none) (marked : step.marked? = none) (answered : step.answered? = none) :
    run.Proceeds exported [step] :=
  ⟨.single turn, Run.Orderly.single step stack entered left marked (Or.inl answered), roots⟩

/-- Exports are given to the outside. -/
theorem answer {run : Run} (idle : run.inProgress = []) (module : String) :
    run.Proceeds exported [.answer module] :=
  ⟨.single (.answer run module), Run.Orderly.single _ rfl rfl rfl rfl (Or.inr idle), rfl⟩

/-- A value is asked for, and others after it. -/
theorem mark {run : Run} {id : SymbolId} {symbol : Symbol} {steps : List Step}
    (found : run.symbols.get? id = some symbol) (unasked : symbol.referenced = false)
    (h : ((Step.mark id).apply run).Proceeds exported steps) :
    run.Proceeds exported (.mark id :: steps) :=
  ⟨.cons (.mark run id) h.turns, Run.Orderly.mark found unasked h.orderly, h.roots⟩

end Run.Proceeds

/-- From any idle run in which the exports of the root are `roots`, the history of the
computation proceeds from idle moment to idle moment. -/
def RunM.Proceeds (exported roots : List SymbolId) (x : RunM α) : Prop :=
  ∀ run : Run, run.inProgress = [] → run.rootExports = roots →
    ∃ steps, x.Performs run steps ∧ run.Proceeds exported steps

namespace RunM

theorem congruence_proceeds (exported roots : List SymbolId) :
    Congruence fun _ x _ => x.Proceeds exported roots where
  pure := fun a run _ _ => ⟨[], performs_pure a run, Run.Proceeds.nil run⟩
  bindGet := by
    intro β f g proceeds run idle set
    obtain ⟨steps, performs, here⟩ := proceeds run run rfl run idle set
    exact ⟨steps, .bindGet performs, here⟩
  bind := by
    intro α β x y f g hx hf run idle set
    obtain ⟨first, performs, here⟩ := hx run idle set
    have ends := performs.after
    obtain ⟨second, performs', there⟩ := hf (x run).1 (x run).2
      (by rw [ends, here.orderly.restored, idle]) (by rw [ends, here.roots, set])
    rw [ends] at there
    exact ⟨first ++ second, performs.bind performs', here.append there⟩

theorem Proceeds.bind {x : RunM α} {f : α → RunM β} (h : x.Proceeds exported roots)
    (h' : ∀ a, (f a).Proceeds exported roots) : (x >>= f).Proceeds exported roots :=
  (congruence_proceeds exported roots).bind (y := x) (g := f) h h'

theorem proceeds_read (f : Run → α) :
    RunM.Proceeds exported roots fun run => (f run, run) :=
  fun run _ _ => ⟨[], performs_read f run, Run.Proceeds.nil run⟩

theorem proceeds_document (module : String) : (document module).Proceeds exported roots :=
  fun run _ _ => ⟨_, performs_document module run,
    .single (.document run module) rfl rfl rfl rfl rfl rfl⟩

/-- Exports are resolved in one visit, and given to whom has asked for them. -/
theorem exists_performs_askExports (exported : List SymbolId) (module : String) {run : Run}
    (idle : run.inProgress = []) :
    ∃ steps, (askExports module).Performs run steps ∧ run.Proceeds exported steps
      ∧ (run.after steps).Knows module := by
  obtain ⟨visited, performs, visit⟩ := exists_visit_exportAll module run
  have here : run.Proceeds exported visited := .visit performs visit
  have answer : (run.after visited).Proceeds exported [.answer module] :=
    .answer (here.orderly.restored.trans idle) module
  have given : (perform (.answer module) >>= fun _ => Pure.pure (exportAll module run).1).Performs
      (exportAll module run).2 [.answer module] :=
    rfl
  refine ⟨visited ++ [.answer module], performs.bind given, here.append answer, ?_⟩
  rw [Run.after_append]
  exact visit.knows

theorem proceeds_askExports (module : String) : (askExports module).Proceeds exported roots := by
  intro run idle _
  obtain ⟨steps, performs, here, -⟩ := exists_performs_askExports exported module idle
  exact ⟨steps, performs, here⟩

/-- An identity is stored once the exports of the root are settled. -/
theorem proceeds_canonical (id : SymbolId) : (canonical id).Proceeds exported exported := by
  intro run _ set
  obtain ⟨steps, performs, rfl | rfl⟩ := exists_performs_canonical id run
  · exact ⟨[], performs, .nil run⟩
  · exact ⟨_, performs, .single (.settle set id) rfl rfl rfl rfl rfl rfl⟩

end RunM

theorem ConvertM.proceeds_bind {x : ConvertM α} {f : α → ConvertM β}
    (h : x.run.Proceeds exported roots) (h' : ∀ a, (f a).run.Proceeds exported roots) :
    (x >>= f).run.Proceeds exported roots :=
  (RunM.congruence_proceeds exported roots).convertM.bind (y := x) (g := f) h h'

theorem ConvertM.proceeds_lift {x : RunM α} (h : x.Proceeds exported roots) :
    (liftM x : ConvertM α).run.Proceeds exported roots :=
  (RunM.congruence_proceeds exported roots).lift (y := x) h

/-! ## §2. Values -/

/-- A symbol is created only after its module has been resolved. -/
theorem proceeds_settledSymbol (module name : String) :
    (settledSymbol module name).Proceeds exported exported := by
  intro run idle set
  obtain ⟨asked, performs, here, known⟩ := RunM.exists_performs_askExports exported module idle
  -- the module is known, so that its symbols may be created
  have created : (run.after asked).Proceeds exported [.symbolOf module name] :=
    .single (.symbolOf known name) rfl rfl rfl rfl rfl rfl
  let id := ((run.after asked).symbols.symbolOf module name).1
  have stores : (RunM.canonical id >>= fun _ => Pure.pure id).Proceeds exported exported :=
    (RunM.proceeds_canonical id).bind fun _ => RunM.proceeds_read fun _ => id
  obtain ⟨settled, performs', there⟩ := stores ((run.after asked).after [.symbolOf module name])
    (by rw [created.orderly.restored, here.orderly.restored, idle])
    (by rw [created.roots, here.roots, set])
  refine ⟨asked ++ ([.symbolOf module name] ++ settled), ?_, here.append (created.append there)⟩
  refine RunM.Performs.bind performs ?_
  rw [performs.after]
  exact RunM.Performs.bind (RunM.performs_symbolOf module name _) performs'

theorem proceeds_declares (module name : String) :
    (declares module name).Proceeds exported roots :=
  (RunM.congruence_proceeds exported roots).declares (RunM.proceeds_document module) name

/-- The walk over a value proceeds where the conversion of symbols does. -/
theorem walks_proceeds {f : SymbolId → ConvertM Unit}
    (symbols : ∀ id, (f id).run.Proceeds exported exported) (module : String) :
    ConvertM.Walks (fun _ x _ => x.run.Proceeds exported exported) module f f where
  toCongruence := (RunM.congruence_proceeds exported exported).convertM
  declares := fun name => ConvertM.proceeds_lift (proceeds_declares module name)
  own := fun name => ConvertM.proceeds_lift (proceeds_settledSymbol module name)
  other := fun _ name => ConvertM.proceeds_lift (proceeds_settledSymbol _ name)
  identity := fun id => RunM.proceeds_read fun run => run.symbols.canonical id
  symbols := symbols

/-! ## §3. Symbols -/

namespace ConvertM

theorem performs_bindGet {f : Run → ConvertM β} {run : Run} {steps : List Step}
    (h : (f run).run.Performs run steps) : (MonadState.get >>= f).run.Performs run steps :=
  h

/-- A computation that cannot fail comes first. -/
theorem performs_liftBind {x : RunM α} {f : α → ConvertM β} {run : Run} {first second : List Step}
    (here : x.Performs run first) (there : (f (x run).1).run.Performs (x run).2 second) :
    (liftM x >>= f).run.Performs run (first ++ second) := by
  have lifted : (liftM x : ConvertM α).run.Performs run first := here
  exact lifted.bind (f := ExceptT.bindCont f) there

end ConvertM

/-- The conversion of a value begins, it proceeds, and its result is stored. -/
theorem proceeds_storeConverted {target : SymbolId} {conversion : ConvertM Value}
    (proceeds : conversion.run.Proceeds exported exported) :
    (storeConverted target conversion).run.Proceeds exported exported := by
  have begins : (RunM.perform (.convert target)).Proceeds exported exported := fun run _ _ =>
    ⟨_, RunM.performs_perform _ run, .single (.convert run target) rfl rfl rfl rfl rfl rfl⟩
  have stores : ∀ value, (RunM.perform (.store target value)).Proceeds exported exported :=
    fun value run _ _ =>
      ⟨_, RunM.performs_perform _ run, .single (.store run target value) rfl rfl rfl rfl rfl rfl⟩
  exact (RunM.congruence_proceeds exported exported).convertM.storeConverted (y := conversion)
    (ConvertM.proceeds_lift begins) (fun value => ConvertM.proceeds_lift (stores value)) proceeds

/-- Putting in the value of a declaration proceeds. -/
theorem proceeds_convertDeclaration {f : SymbolId → ConvertM Unit}
    (symbols : ∀ id, (f id).run.Proceeds exported exported) (target : SymbolId) :
    (convertDeclaration f target).run.Proceeds exported exported :=
  ConvertM.Walks.convertDeclaration (P := fun _ => True)
    (fun module _ => walks_proceeds symbols module)
    (S := fun x _ => x.run.Proceeds exported exported)
    (fun {p q} related => (RunM.congruence_proceeds exported exported).convertM.bindGet
      (f := p) (g := q) fun run other same => related run other same fun _ => trivial)
    (RunM.proceeds_read fun _ => Except.ok ()) ConvertM.proceeds_bind
    (fun id => ConvertM.proceeds_lift (RunM.proceeds_canonical id))
    (fun module _ => ConvertM.proceeds_lift (RunM.proceeds_document module))
    proceeds_storeConverted

/-- **The value of a symbol is asked for once**, however deep conversion may nest. -/
theorem proceeds_convertNested (depth : Nat) (id : SymbolId) :
    (convertNested depth id).run.Proceeds exported exported := by
  induction depth generalizing id with
  | zero => exact RunM.proceeds_read fun _ => Except.ok ()
  | succ depth ih =>
      refine ConvertM.proceeds_bind (ConvertM.proceeds_lift (RunM.proceeds_canonical id))
        fun canonical => ?_
      intro run idle set
      cases found : run.symbols.get? canonical.symbol with
      | none =>
          refine ⟨[], ConvertM.performs_bindGet ?_, .nil run⟩
          rw [found]
          exact RunM.performs_pure (Except.ok ()) run
      | some symbol =>
          cases asked : symbol.referenced with
          | true =>
              refine ⟨[], ConvertM.performs_bindGet ?_, .nil run⟩
              simp only [found, asked, if_true]
              exact RunM.performs_pure (Except.ok ()) run
          | false =>
              let marked := (Step.mark canonical.symbol).apply run
              -- the mark is set, then the value is walked
              obtain ⟨steps, performs, here⟩ :=
                proceeds_convertDeclaration ih canonical.symbol marked idle set
              refine ⟨.mark canonical.symbol :: steps, ConvertM.performs_bindGet ?_,
                .mark found asked here⟩
              simp only [found, asked]
              exact ConvertM.performs_liftBind (RunM.performs_perform _ run) performs

end FlatBundle
