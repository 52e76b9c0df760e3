/-
  FlatBundle.Proofs.Run.Congruence
  ────────────────────────────────
  **RELATIONS THAT FOLLOW HOW COMPUTATIONS ARE PUT TOGETHER.**

  Resolving exports and converting values are given a computation for the modules and the
  symbols that they meet.  Two things have to be said of every such walk, whatever it is
  given: which steps it performs, and that it does the same when it is given two
  computations that do the same.  Both are relations between computations that hold of a
  walk because they hold of its parts.

  A relation with `RunM.Congruence` or `ConvertM.Congruence` is followed once through
  all export functions and once through all conversion functions; a property of one
  computation is a relation that looks at one side only.  Of the run a walk reads the
  symbols and nothing else, so that walks of two runs with the same symbols can be related.
-/
import FlatBundle.Proofs.Run.Steps

namespace FlatBundle

variable {α β γ : Type}

/-! ## §1. Steps -/

/-- A relation between computations that is kept by the ways in which they are put
together. -/
structure RunM.Congruence (R : (α : Type) → RunM α → RunM α → Prop) : Prop where
  pure : ∀ {α : Type} (a : α), R α (Pure.pure a) (Pure.pure a)
  /-- Reading the run, where nothing depends on it but on its symbols. -/
  bindGet : ∀ {β : Type} {f g : Run → RunM β},
    (∀ run other, run.symbols = other.symbols → R β (f run) (g other)) →
    R β (MonadState.get >>= f) (MonadState.get >>= g)
  bind : ∀ {α β : Type} {x y : RunM α} {f g : α → RunM β}, R α x y → (∀ a, R β (f a) (g a)) →
    R β (x >>= f) (y >>= g)

namespace RunM.Congruence

variable {R : (α : Type) → RunM α → RunM α → Prop}

theorem foldlM (h : RunM.Congruence R) {f g : β → α → RunM β} (items : List α)
    (related : ∀ acc, ∀ item ∈ items, R β (f acc item) (g acc item)) (init : β) :
    R β (items.foldlM f init) (items.foldlM g init) := by
  induction items generalizing init with
  | nil => exact h.pure init
  | cons item rest ih =>
      rw [List.foldlM_cons, List.foldlM_cons]
      refine h.bind (related init item List.mem_cons_self) fun acc => ?_
      exact ih (fun acc other hother => related acc other (List.mem_cons_of_mem _ hother)) acc

theorem forM (h : RunM.Congruence R) {f g : α → RunM PUnit} (items : List α)
    (related : ∀ item ∈ items, R PUnit (f item) (g item)) :
    R PUnit (items.forM f) (items.forM g) := by
  induction items with
  | nil => exact h.pure PUnit.unit
  | cons item rest ih =>
      refine h.bind (related item List.mem_cons_self) fun _ => ?_
      exact ih fun other hother => related other (List.mem_cons_of_mem _ hother)

end RunM.Congruence

/-! ## §2. Steps that may fail -/

/-- A relation between computations that may fail, kept by the ways in which they are put
together. -/
structure ConvertM.Congruence (R : (α : Type) → ConvertM α → ConvertM α → Prop) : Prop where
  pure : ∀ {α : Type} (a : α), R α (Pure.pure a) (Pure.pure a)
  /-- Reading the run, where nothing depends on it but on its symbols. -/
  bindGet : ∀ {β : Type} {f g : Run → ConvertM β},
    (∀ run other, run.symbols = other.symbols → R β (f run) (g other)) →
    R β (MonadState.get >>= f) (MonadState.get >>= g)
  bind : ∀ {α β : Type} {x y : ConvertM α} {f g : α → ConvertM β}, R α x y →
    (∀ a, R β (f a) (g a)) → R β (x >>= f) (y >>= g)

namespace ConvertM.Congruence

variable {R : (α : Type) → ConvertM α → ConvertM α → Prop}

theorem map (h : ConvertM.Congruence R) {x y : ConvertM α} (f : α → β) (related : R α x y) :
    R β (x >>= fun a => Pure.pure (f a)) (y >>= fun a => Pure.pure (f a)) :=
  h.bind related fun a => h.pure (f a)

theorem forM (h : ConvertM.Congruence R) {f g : α → ConvertM PUnit} (items : List α)
    (related : ∀ item ∈ items, R PUnit (f item) (g item)) :
    R PUnit (items.forM f) (items.forM g) := by
  induction items with
  | nil => exact h.pure PUnit.unit
  | cons item rest ih =>
      refine h.bind (related item List.mem_cons_self) fun _ => ?_
      exact ih fun other hother => related other (List.mem_cons_of_mem _ hother)

end ConvertM.Congruence

/-- What is kept by the ways in which steps are put together is also kept where steps may
fail: a failure does nothing. -/
theorem RunM.Congruence.convertM {R : (α : Type) → RunM α → RunM α → Prop}
    (h : RunM.Congruence R) :
    ConvertM.Congruence fun α x y => R (Except BundleError α) x.run y.run where
  pure := fun a => h.pure (Except.ok a)
  bindGet := by
    intro β f g related
    have both := h.bindGet (f := fun run => (f run).run) (g := fun run => (g run).run) related
    exact both
  bind := by
    intro α β x y f g related there
    refine h.bind (f := ExceptT.bindCont f) (g := ExceptT.bindCont g) related fun result => ?_
    cases result with
    | ok a => exact there a
    | error error => exact h.pure (Except.error error)

/-- A computation that cannot fail. -/
theorem RunM.Congruence.lift {R : (α : Type) → RunM α → RunM α → Prop} (h : RunM.Congruence R)
    {x y : RunM α} (related : R α x y) :
    R (Except BundleError α) (liftM x : ConvertM α).run (liftM y : ConvertM α).run :=
  h.bind (f := fun a => Pure.pure (Except.ok a)) (g := fun a => Pure.pure (Except.ok a)) related
    fun a => h.pure (Except.ok a)

end FlatBundle
