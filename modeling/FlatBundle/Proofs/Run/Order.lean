/-
  FlatBundle.Proofs.Run.Order
  ───────────────────────────
  **WHAT A HISTORY DOES, IT DOES ONCE.**

  A history is `Orderly` if it leaves just those modules that it enters, enters no module
  that is known, asks for no value that has been asked for before, and gives exports to the
  outside only while no module is in progress.  So no module is entered twice and no value is
  asked for twice, and this stays so when orderly histories follow one another
  (`Orderly.append`).  What it stores as the exports of a module it never changes
  (`Orderly.resolved_stays`).

  There are two ways to build an orderly history around another one: a module is entered,
  its document is walked, and it is left (`Orderly.visit`); and a value is asked for before
  others are (`Orderly.mark`).
-/
import FlatBundle.Proofs.Run.History

namespace FlatBundle

/-! ## §1. Things done once -/

/-- Some things are done, each once: none was done before, and all are done after. -/
structure Once {α : Type} (things : List α) (before after : α → Prop) : Prop where
  nodup : things.Nodup
  fresh : ∀ thing ∈ things, ¬ before thing
  done : ∀ thing ∈ things, after thing

namespace Once

variable {α : Type} {things more : List α} {before middle after : α → Prop}

theorem nil : Once ([] : List α) before after :=
  ⟨List.nodup_nil, by simp, by simp⟩

theorem single {thing : α} (fresh : ¬ before thing) (done : after thing) :
    Once [thing] before after :=
  ⟨List.pairwise_singleton _ _, by simpa using fresh, by simpa using done⟩

theorem append (h : Once things before middle) (h' : Once more middle after)
    (grows : ∀ thing, before thing → middle thing) (grows' : ∀ thing, middle thing → after thing) :
    Once (things ++ more) before after where
  nodup := by
    refine List.nodup_append.2 ⟨h.nodup, h'.nodup, ?_⟩
    rintro thing hthing _ hmore rfl
    exact h'.fresh thing hmore (h.done thing hthing)
  fresh := by
    intro thing hthing
    rcases List.mem_append.1 hthing with hthing | hthing
    · exact h.fresh thing hthing
    · exact fun old => h'.fresh thing hthing (grows thing old)
  done := by
    intro thing hthing
    rcases List.mem_append.1 hthing with hthing | hthing
    · exact grows' thing (h.done thing hthing)
    · exact h'.done thing hthing

end Once

/-! ## §2. Orderly histories -/

/-- The modules of the stack are in progress all the time. -/
def Run.Within (stack : List String) (run : Run) (steps : List Step) : Prop :=
  ∀ first, first <+: steps → stack <:+ (run.after first).inProgress

/-- The modules that a history enters, in order. -/
def enteredModules (steps : List Step) : List String := steps.filterMap Step.entered?

/-- The modules that a history leaves, in order. -/
def leftModules (steps : List Step) : List String := steps.filterMap Step.left?

/-- The symbols whose values a history asks for, in order. -/
def markedSymbols (steps : List Step) : List SymbolId := steps.filterMap Step.marked?

/-- Exports are given to the outside while no module is in progress. -/
def Run.Answers (run : Run) (steps : List Step) : Prop :=
  ∀ first module, first ++ [.answer module] <+: steps → (run.after first).inProgress = []

/-- The history does nothing twice, and leaves what it enters. -/
structure Run.Orderly (run : Run) (steps : List Step) : Prop where
  restored : (run.after steps).inProgress = run.inProgress
  within : run.Within run.inProgress steps
  left : (leftModules steps).Perm (enteredModules steps)
  entered : Once (enteredModules steps) run.Knows (run.after steps).Knows
  marked : Once (markedSymbols steps) (run.symbols.isReferenced · = true)
    ((run.after steps).symbols.isReferenced · = true)
  answers : run.Answers steps

/-- A part of two lists in a row is a part of the first, or goes on into the second. -/
theorem prefix_append_cases {α : Type} {first items more : List α} (h : first <+: items ++ more) :
    first <+: items ∨ ∃ rest, first = items ++ rest ∧ rest <+: more := by
  obtain ⟨last, same⟩ := h
  rcases List.append_eq_append_iff.1 same with ⟨rest, rfl, -⟩ | ⟨rest, rfl, rfl⟩
  · exact Or.inl (List.prefix_append first rest)
  · exact Or.inr ⟨rest, rfl, List.prefix_append rest last⟩

/-- A part of two lists in a row that ends in `item` ends in one of them. -/
theorem concat_prefix_append_cases {α : Type} {first items more : List α} {item : α}
    (h : first ++ [item] <+: items ++ more) :
    first ++ [item] <+: items ∨ ∃ rest, first = items ++ rest ∧ rest ++ [item] <+: more := by
  rcases prefix_append_cases h with here | ⟨rest, same, there⟩
  · exact Or.inl here
  · rcases List.eq_nil_or_concat rest with rfl | ⟨rest, last, rfl⟩
    · rw [List.append_nil] at same
      exact Or.inl (same ▸ List.prefix_rfl)
    · rw [List.concat_eq_append, ← List.append_assoc] at same
      obtain ⟨rfl, last_eq⟩ := List.append_inj' same rfl
      rw [List.concat_eq_append, ← last_eq] at there
      exact Or.inr ⟨rest, rfl, there⟩

namespace Run.Within

variable {stack : List String} {run : Run}

theorem nil (h : stack <:+ run.inProgress) : run.Within stack [] := by
  intro first hfirst
  rw [List.prefix_nil.1 hfirst]
  exact h

theorem append {first second : List Step} (h : run.Within stack first)
    (h' : (run.after first).Within stack second) : run.Within stack (first ++ second) := by
  intro part hpart
  rcases prefix_append_cases hpart with here | ⟨rest, rfl, there⟩
  · exact h part here
  · rw [Run.after_append]
    exact h' rest there

theorem cons {step : Step} {steps : List Step} (h : stack <:+ run.inProgress)
    (h' : (step.apply run).Within stack steps) : run.Within stack (step :: steps) := by
  intro part hpart
  rcases List.prefix_cons_iff.1 hpart with rfl | ⟨rest, rfl, there⟩
  · exact h
  · exact h' rest there

end Run.Within

namespace Run.Answers

variable {run : Run}

theorem nil (run : Run) : run.Answers [] := by
  intro first module part
  exact absurd (List.prefix_nil.1 part) (by simp)

/-- A step that gives exports to the outside, if at all, while no module is in progress. -/
theorem single {step : Step} (idle : step.answered? = none ∨ run.inProgress = []) :
    run.Answers [step] := by
  intro first module part
  rcases List.prefix_cons_iff.1 part with nothing | ⟨rest, same, there⟩
  · simp at nothing
  · cases first with
    | nil =>
        rw [List.nil_append] at same
        obtain ⟨rfl, -⟩ := List.cons_eq_cons.1 same
        exact idle.resolve_left (by simp [Step.answered?])
    | cons other first =>
        obtain ⟨-, rfl⟩ := List.cons_eq_cons.1 same
        simp at there

theorem append {first second : List Step} (h : run.Answers first)
    (h' : (run.after first).Answers second) : run.Answers (first ++ second) := by
  intro part module hpart
  rcases concat_prefix_append_cases hpart with here | ⟨rest, rfl, there⟩
  · exact h part module here
  · rw [Run.after_append]
    exact h' rest module there

end Run.Answers

theorem Run.Accrues.knows {run later : Run} (h : run.Accrues later)
    (stack : ∀ module ∈ run.inProgress, later.Knows module) {module : String}
    (known : run.Knows module) : later.Knows module := by
  rcases known with resolved | entered
  · exact Or.inl (h.resolved module resolved)
  · exact stack module entered

theorem Run.Accrues.knows_of_restored {run later : Run} (h : run.Accrues later)
    (restored : later.inProgress = run.inProgress) {module : String} (known : run.Knows module) :
    later.Knows module :=
  h.knows (fun _ entered => Or.inr (restored ▸ entered)) known

namespace Run.Orderly

variable {run : Run}

theorem nil (run : Run) : run.Orderly [] where
  restored := rfl
  within := Run.Within.nil List.suffix_rfl
  left := List.Perm.nil
  entered := Once.nil
  marked := Once.nil
  answers := Run.Answers.nil run

/-- A step that enters and leaves no module and asks for no value. -/
theorem single (step : Step) (stack : (step.apply run).inProgress = run.inProgress)
    (entered : step.entered? = none) (left : step.left? = none) (marked : step.marked? = none)
    (answers : step.answered? = none ∨ run.inProgress = []) : run.Orderly [step] where
  restored := stack
  within := Run.Within.cons List.suffix_rfl (Run.Within.nil (stack ▸ List.suffix_rfl))
  left := by
    rw [leftModules, enteredModules, List.filterMap_cons_none left,
      List.filterMap_cons_none entered]
    exact List.Perm.nil
  entered := by
    rw [enteredModules, List.filterMap_cons_none entered]
    exact Once.nil
  marked := by
    rw [markedSymbols, List.filterMap_cons_none marked]
    exact Once.nil
  answers := Run.Answers.single answers

/-- **Orderly histories follow one another.** -/
theorem append {first second : List Step} (h : run.Orderly first)
    (h' : (run.after first).Orderly second) : run.Orderly (first ++ second) := by
  have accrues := run.accrues_after first
  have accrues' := (run.after first).accrues_after second
  refine ⟨?_, h.within.append (h.restored ▸ h'.within), ?_, ?_, ?_, ?_⟩
  · rw [Run.after_append, h'.restored, h.restored]
  · rw [leftModules, enteredModules, List.filterMap_append, List.filterMap_append]
    exact h.left.append h'.left
  · rw [enteredModules, List.filterMap_append, Run.after_append]
    exact h.entered.append h'.entered (fun _ => accrues.knows_of_restored h.restored)
      fun _ => accrues'.knows_of_restored h'.restored
  · rw [markedSymbols, List.filterMap_append, Run.after_append]
    exact h.marked.append h'.marked (fun _ => accrues.symbols.isReferenced)
      fun _ => accrues'.symbols.isReferenced
  · exact h.answers.append h'.answers

/-! ## §3. Modules -/

/-- What is known while a module is in progress is known when it is left. -/
theorem knows_leave {run : Run} {module other : String} (exported : List SymbolId)
    (known : run.Knows other) : ((Step.leave module exported).apply run).Knows other := by
  refine ((Step.leave module exported).accrues run).knows (fun other entered => ?_) known
  by_cases here : other = module
  -- the module is known as resolved once it is no longer known as entered
  · left
    show ((run.resolved.insert module exported).get? other).isSome = true
    rw [Entries.get?_insert, if_pos here]
    rfl
  · right
    show other ∈ run.inProgress.erase module
    exact (List.mem_erase_of_ne here).2 entered

/-- **A module is entered, walked and left.** -/
theorem visit {module : String} {steps : List Step} {exported : List SymbolId}
    (unknown : ¬ run.Knows module) (h : ((Step.enter module).apply run).Orderly steps) :
    run.Orderly ([.enter module] ++ steps ++ [.leave module exported]) := by
  have stack : (((Step.enter module).apply run).after steps).inProgress
      = module :: run.inProgress :=
    h.restored
  have restored : (((((Step.enter module).apply run).after steps).inProgress).erase module)
      = run.inProgress := by
    rw [stack, List.erase_cons_head]
  have ends : run.after ([.enter module] ++ steps ++ [.leave module exported])
      = (Step.leave module exported).apply (((Step.enter module).apply run).after steps) := by
    rw [Run.after_append, Run.after_append]
    rfl
  refine ⟨?_, ?_, ?_, ?_, ?_, ?_⟩
  · rw [ends]
    exact restored
  · refine Run.Within.append (Run.Within.append ?_ ?_) ?_
    · exact Run.Within.cons List.suffix_rfl (Run.Within.nil (List.suffix_cons _ _))
    · intro first hfirst
      exact (List.suffix_cons module run.inProgress).trans (h.within first hfirst)
    · rw [Run.after_append]
      exact Run.Within.cons (stack ▸ List.suffix_cons _ _)
        (Run.Within.nil (restored ▸ List.suffix_rfl))
  · have left : leftModules ([.enter module] ++ steps ++ [.leave module exported])
        = leftModules steps ++ [module] := by
      simp [leftModules, List.filterMap_cons, Step.left?]
    have entered : enteredModules ([.enter module] ++ steps ++ [.leave module exported])
        = module :: enteredModules steps := by
      simp [enteredModules, Step.entered?]
    rw [left, entered]
    exact (List.perm_append_singleton module _).trans (h.left.cons module)
  -- the module is new, and while it is in progress it is not entered again
  · have names : enteredModules ([.enter module] ++ steps ++ [.leave module exported])
        = [module] ++ enteredModules steps := by
      simp [enteredModules, Step.entered?]
    rw [names, ends]
    have first : Once [module] run.Knows ((Step.enter module).apply run).Knows :=
      Once.single unknown (Or.inr List.mem_cons_self)
    have inner : Once (enteredModules steps) ((Step.enter module).apply run).Knows
        ((Step.leave module exported).apply (((Step.enter module).apply run).after steps)).Knows :=
      ⟨h.entered.nodup, h.entered.fresh,
        fun other hother => knows_leave exported (h.entered.done other hother)⟩
    refine first.append inner (fun other => ?_) fun other known => knows_leave exported ?_
    · refine ((Step.enter module).accrues run).knows fun other entered => ?_
      exact Or.inr (List.mem_cons_of_mem module entered)
    · exact (Run.accrues_after _ steps).knows_of_restored h.restored known
  · have ids : markedSymbols ([.enter module] ++ steps ++ [.leave module exported])
        = markedSymbols steps := by
      simp [markedSymbols, List.filterMap_cons, Step.marked?]
    rw [ids, ends]
    exact h.marked
  · have opened : run.Answers [.enter module] := Run.Answers.single (Or.inl rfl)
    exact (opened.append h.answers).append (Run.Answers.single (Or.inl rfl))

/-! ## §4. Values -/

/-- A value is asked for, and others after it. -/
theorem mark {id : SymbolId} {steps : List Step} {symbol : Symbol}
    (found : run.symbols.get? id = some symbol) (unasked : symbol.referenced = false)
    (h : ((Step.mark id).apply run).Orderly steps) :
    run.Orderly (.mark id :: steps) := by
  have new : ¬ run.symbols.isReferenced id = true := by
    rw [SymbolTable.isReferenced, found]
    simpa using unasked
  have asked : ((Step.mark id).apply run).symbols.isReferenced id = true := by
    show (run.symbols.modify id _).isReferenced id = true
    rw [SymbolTable.isReferenced, SymbolTable.get?_modify, if_pos rfl, found]
    rfl
  have before : ∀ other, run.symbols.isReferenced other = true →
      ((Step.mark id).apply run).symbols.isReferenced other = true :=
    fun _ => ((Step.mark id).accrues run).symbols.isReferenced
  have first : Once [id] (run.symbols.isReferenced · = true)
      (((Step.mark id).apply run).symbols.isReferenced · = true) :=
    Once.single new asked
  refine ⟨h.restored, Run.Within.cons List.suffix_rfl h.within, h.left, h.entered, ?_, ?_⟩
  · exact first.append h.marked before
      fun _ => (Run.accrues_after _ steps).symbols.isReferenced
  · exact (Run.Answers.single (Or.inl rfl)).append h.answers

end Run.Orderly

/-! ## §5. Exports -/

/-- What is stored for a module stays until the module is left again. -/
theorem Run.resolved_after {module : String} (run : Run) {steps : List Step}
    (unleft : module ∉ leftModules steps) :
    (run.after steps).resolved.get? module = run.resolved.get? module := by
  induction steps generalizing run with
  | nil => rfl
  | cons step rest ih =>
      have rest' : module ∉ leftModules rest := by
        intro mem
        refine unleft ?_
        rw [leftModules, List.filterMap_cons]
        split
        · exact mem
        · exact List.mem_cons_of_mem _ mem
      rw [Run.after_cons, ih (step.apply run) rest']
      cases step with
      | leave other exported =>
          have other' : module ≠ other := by
            rintro rfl
            exact unleft List.mem_cons_self
          show (run.resolved.insert other exported).get? module = _
          rw [Entries.get?_insert, if_neg other']
      | _ => rfl

/-- **What an orderly history stores for a module it never changes**, as it leaves no module
twice and none whose exports were known. -/
theorem Run.Orderly.resolved_stays {run : Run} {first second steps : List Step}
    (h : run.Orderly steps) (part : first <+: second) (part' : second <+: steps)
    {module : String} {exported : List SymbolId}
    (stored : (run.after first).resolved.get? module = some exported) :
    (run.after second).resolved.get? module = some exported := by
  obtain ⟨more, rfl⟩ := part
  obtain ⟨rest, rfl⟩ := part'
  have once : (leftModules (first ++ more ++ rest)).Nodup := h.left.nodup_iff.2 h.entered.nodup
  have split : leftModules (first ++ more ++ rest)
      = leftModules first ++ (leftModules more ++ leftModules rest) := by
    rw [leftModules, List.filterMap_append, List.filterMap_append, List.append_assoc]
    rfl
  rw [Run.after_append, Run.resolved_after _ ?_, stored]
  intro again
  have mem : module ∈ leftModules more ++ leftModules rest := List.mem_append_left _ again
  by_cases before : module ∈ leftModules first
  · rw [split] at once
    exact (List.nodup_append.1 once).2.2 module before module mem rfl
  · rw [Run.resolved_after run before] at stored
    have entered : module ∈ enteredModules (first ++ more ++ rest) :=
      h.left.subset (split ▸ List.mem_append_right _ mem)
    exact h.entered.fresh module entered (Or.inl (by rw [stored]; rfl))

end FlatBundle
