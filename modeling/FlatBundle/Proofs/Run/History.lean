/-
  FlatBundle.Proofs.Run.History
  ─────────────────────────────
  **WHAT A RUN GOES THROUGH, STEP BY STEP.**

  A moment of a run is the run after the first few of its steps (`Run.after`).  As a run
  notes the steps that it makes, the history of a run at the end of a computation says
  through which moments it has gone: `x.Performs run steps` says that the computation `x`,
  started in `run`, changes the run by these steps, one after the other, and then these are
  what the log has got longer by (`RunM.Performs.history`).  So there is one such list, that
  of the steps which the computation makes itself (`RunM.Performs.unique`).

  There are three rules: a computation that only reads performs no step, one that makes a
  single step performs that step, and of two computations in sequence the second goes on
  where the first has ended.

  Some facts hold of every step whatever it is applied to: names of symbols, links and
  marks are never taken back (`Run.Accrues`).
-/
import FlatBundle.Proofs.Run.Soundness
import FlatBundle.Proofs.Symbol.Accrual

namespace FlatBundle

variable {α β : Type}

/-! ## §1. Steps -/

namespace Step

/-- The module that the step enters. -/
def entered? : Step → Option String
  | .enter module => some module
  | _ => none

/-- The module that the step leaves. -/
def left? : Step → Option String
  | .leave module _ => some module
  | _ => none

/-- The entry of a document that the step looks at. -/
def walked? : Step → Option (String × String)
  | .entry module name => some (module, name)
  | _ => none

/-- The module whose exports the step gives to whom has asked for them. -/
def answered? : Step → Option String
  | .answer module => some module
  | _ => none

/-- The symbol whose value the step asks for. -/
def marked? : Step → Option SymbolId
  | .mark id => some id
  | _ => none

/-- The symbol whose value begins to be converted. -/
def converted? : Step → Option SymbolId
  | .convert id => some id
  | _ => none

/-- The symbol whose value the step stores. -/
def stored? : Step → Option SymbolId
  | .store id _ => some id
  | _ => none

/-- A run notes every step. -/
theorem log_apply (step : Step) (run : Run) : (step.apply run).log = step :: run.log := by
  cases step with
  | _ => rfl

end Step

/-- The run after some steps. -/
def Run.after (run : Run) (steps : List Step) : Run :=
  steps.foldl (fun run step => step.apply run) run

@[simp] theorem Run.after_nil (run : Run) : run.after [] = run := rfl

@[simp] theorem Run.after_cons (run : Run) (step : Step) (steps : List Step) :
    run.after (step :: steps) = (step.apply run).after steps := rfl

theorem Run.after_append (run : Run) (first second : List Step) :
    run.after (first ++ second) = (run.after first).after second :=
  List.foldl_append

/-- **The history of a run grows by the steps that are made.** -/
theorem Run.history_after (run : Run) (steps : List Step) :
    (run.after steps).history = run.history ++ steps := by
  induction steps generalizing run with
  | nil => exact (List.append_nil _).symm
  | cons step rest ih =>
      rw [Run.after_cons, ih, history, history, step.log_apply, List.reverse_cons,
        List.append_assoc, List.singleton_append]

/-- A run without its log. -/
def Run.unlogged (run : Run) : Run := { run with log := [] }

/-! ## §2. Computations -/

/-- The computation, started in the run, performs the steps. -/
def RunM.Performs (x : RunM α) (run : Run) (steps : List Step) : Prop :=
  (x run).2 = run.after steps

namespace RunM

variable {x : RunM α} {run : Run}

/-- **A computation ends where its steps lead.** -/
theorem Performs.after {steps : List Step} (h : x.Performs run steps) :
    (x run).2 = run.after steps := h

/-- **The log holds the steps that are performed.** -/
theorem Performs.history {steps : List Step} (h : x.Performs run steps) :
    (x run).2.history = run.history ++ steps := by
  rw [h.after, Run.history_after]

/-- A computation performs one list of steps. -/
theorem Performs.unique {steps other : List Step} (h : x.Performs run steps)
    (h' : x.Performs run other) : steps = other :=
  List.append_cancel_left (h.history.symm.trans h'.history)

/-- What only reads performs no step. -/
theorem performs_read (f : Run → α) (run : Run) :
    Performs (fun run => (f run, run)) run [] := rfl

theorem performs_pure (a : α) (run : Run) : (Pure.pure a : RunM α).Performs run [] := rfl

/-- One step. -/
theorem performs_perform (step : Step) (run : Run) : (perform step).Performs run [step] := rfl

theorem performs_document (module : String) (run : Run) :
    (document module).Performs run [.document module] := rfl

theorem performs_symbolOf (module name : String) (run : Run) :
    (symbolOf module name).Performs run [.symbolOf module name] := rfl

/-- One computation after the other. -/
theorem Performs.bind {f : α → RunM β} {first second : List Step} (here : x.Performs run first)
    (there : (f (x run).1).Performs (x run).2 second) :
    (x >>= f).Performs run (first ++ second) := by
  rw [Performs, Run.after_append, ← here.after]
  exact there

theorem Performs.bindGet {f : Run → RunM β} {steps : List Step}
    (h : (f run).Performs run steps) : (MonadState.get >>= f).Performs run steps :=
  h

/-- The identity of a symbol is stored if it is open. -/
theorem exists_performs_canonical (id : SymbolId) (run : Run) :
    ∃ steps, (canonical id).Performs run steps ∧ (steps = [] ∨ steps = [.settle id]) := by
  unfold Performs canonical
  cases run.symbols.canonical? id with
  | some canonical => exact ⟨[], rfl, Or.inl rfl⟩
  | none => exact ⟨[.settle id], rfl, Or.inr rfl⟩

end RunM

/-! ## §3. What no step takes back -/

/-- The later run has what the earlier one had: symbols, links and marks, and modules that
are resolved. -/
structure Run.Accrues (run later : Run) : Prop where
  symbols : run.symbols.Accrues later.symbols
  resolved : ∀ module, (run.resolved.get? module).isSome → (later.resolved.get? module).isSome

theorem Run.Accrues.refl (run : Run) : run.Accrues run :=
  ⟨SymbolTable.Accrues.refl _, fun _ h => h⟩

theorem Run.Accrues.trans {first second third : Run} (h : first.Accrues second)
    (h' : second.Accrues third) : first.Accrues third :=
  ⟨h.symbols.trans h'.symbols, fun module known => h'.resolved module (h.resolved module known)⟩

theorem Step.accrues (step : Step) (run : Run) : run.Accrues (step.apply run) := by
  cases step with
  | document module => exact ⟨SymbolTable.Accrues.refl _, fun _ h => h⟩
  | symbolOf module name => exact ⟨SymbolTable.Accrues.symbolOf _ module name, fun _ h => h⟩
  | link exported newName => exact ⟨SymbolTable.Accrues.link _ exported newName, fun _ h => h⟩
  | enter | entry | answer | convert => exact ⟨SymbolTable.Accrues.refl _, fun _ h => h⟩
  | leave module exported =>
      refine ⟨SymbolTable.Accrues.refl _, fun other known => ?_⟩
      show ((run.resolved.insert module exported).get? other).isSome = true
      rw [Entries.get?_insert]
      split
      · rfl
      · exact known
  | roots exported => exact ⟨SymbolTable.Accrues.refl _, fun _ h => h⟩
  | settle id =>
      refine ⟨SymbolTable.Accrues.modify _ id fun symbol => ?_, fun _ h => h⟩
      exact ⟨⟨rfl, rfl⟩, fun _ h => h, List.prefix_rfl, fun h => h⟩
  | mark id =>
      refine ⟨SymbolTable.Accrues.modify _ id fun symbol => ?_, fun _ h => h⟩
      exact ⟨⟨rfl, rfl⟩, fun _ h => h, List.prefix_rfl, fun _ => rfl⟩
  | store id value =>
      refine ⟨SymbolTable.Accrues.modify _ id fun symbol => ?_, fun _ h => h⟩
      exact ⟨⟨rfl, rfl⟩, fun _ h => h, List.prefix_rfl, fun h => h⟩

/-- **No history takes anything back.** -/
theorem Run.accrues_after (run : Run) (steps : List Step) : run.Accrues (run.after steps) := by
  induction steps generalizing run with
  | nil => exact Run.Accrues.refl run
  | cons step rest ih => exact (step.accrues run).trans (ih (step.apply run))

end FlatBundle
