/-
  FlatBundle.Proofs.Conversion.Nesting
  ────────────────────────────────────
  **NO CONVERSION IS CUT SHORT.**

  Converting the value of a symbol calls for converting others, and `convertSymbol` allows
  for a depth that is reckoned from the host.  The depth is never used up.

  The argument is by failure.  Put below the last level a computation that fails: the whole
  conversion still succeeds (`Run.Exporting.convertRootWithin`), so it has not come there,
  and what succeeds with failure at the bottom does the same with anything else at the
  bottom (`ConvertM.Refines`).
-/
import FlatBundle.Proofs.Conversion.Root
import FlatBundle.Proofs.Conversion.Walk

namespace FlatBundle

variable {α : Type} {host : Host} {root : String}

/-! ## §1. Doing the same on success -/

/-- Where the first computation succeeds, the second does the same. -/
def ConvertM.Refines (x y : ConvertM α) : Prop :=
  ∀ run a later, x run = (.ok a, later) → y run = (.ok a, later)

theorem ConvertM.Refines.refl (x : ConvertM α) : x.Refines x := fun _ _ _ h => h

theorem ConvertM.congruence_refines : ConvertM.Congruence fun _ x y => x.Refines y where
  pure := fun a => .refl (Pure.pure a)
  bindGet := fun refines run => refines run run rfl run
  bind := by
    intro α β x y f g hx hf run b later h
    change ExceptT.bindCont f (x run).1 (x run).2 = _ at h
    show ExceptT.bindCont g (y run).1 (y run).2 = _
    rcases first : x run with ⟨_ | a, middle⟩
    · rw [first] at h
      cases congrArg Prod.fst h
    · rw [first] at h
      rw [hx run a middle first]
      exact hf a middle b later h

/-! ## §2. Levels -/

variable {f g : SymbolId → ConvertM Unit}

theorem refines_walks (symbols : ∀ id, (f id).Refines (g id)) (module : String) :
    ConvertM.Walks (fun _ x y => x.Refines y) module f g where
  toCongruence := ConvertM.congruence_refines
  declares := fun _ => .refl _
  own := fun _ => .refl _
  other := fun _ _ => .refl _
  identity := fun _ => .refl _
  symbols := symbols

theorem refines_convertDeclaration (symbols : ∀ id, (f id).Refines (g id)) (target : SymbolId) :
    (convertDeclaration f target).Refines (convertDeclaration g target) :=
  ConvertM.Walks.convertDeclaration (P := fun _ => True)
    (fun module _ => refines_walks symbols module)
    (fun refines run => refines run run rfl (fun _ => trivial) run) (.refl _)
    ConvertM.congruence_refines.bind (fun _ => .refl _) (fun _ _ => .refl _)
    (ConvertM.congruence_refines.storeConverted (.refl _) fun _ => .refl _)

theorem refines_convertOnce (symbols : ∀ id, (f id).Refines (g id)) (id : SymbolId) :
    (convertOnce f id).Refines (convertOnce g id) := by
  have congruence := ConvertM.congruence_refines
  refine congruence.bind (.refl _) fun canonical => congruence.bind (.refl _) fun run => ?_
  cases run.symbols.get? canonical.symbol with
  | none => exact congruence.pure ()
  | some symbol =>
      cases asked : symbol.referenced with
      | true =>
          simp only [asked, if_true]
          exact congruence.pure ()
      | false =>
          simp only [asked]
          exact congruence.bind (.refl _) fun _ =>
            refines_convertDeclaration symbols canonical.symbol

theorem refines_iterate (symbols : ∀ id, (f id).Refines (g id)) (depth : Nat) (id : SymbolId) :
    (convertOnce^[depth] f id).Refines (convertOnce^[depth] g id) := by
  induction depth generalizing id with
  | zero => exact symbols id
  | succ depth ih =>
      rw [Function.iterate_succ_apply', Function.iterate_succ_apply']
      exact refines_convertOnce ih id

theorem refines_convertRootWithin (symbols : ∀ id, (f id).Refines (g id)) (root : String) :
    (convertRootWithin f root).Refines (convertRootWithin g root) := by
  have congruence := ConvertM.congruence_refines
  refine congruence.bind (.refl _) fun exported => congruence.bind (.refl _) fun _ => ?_
  refine congruence.bind (congruence.forM exported fun id _ => ?_) fun _ => congruence.pure _
  exact congruence.bind (.refl _) fun run => refines_iterate symbols (conversionDepth run) id

/-! ## §3. The root -/

/-- **Conversion is not cut short**: whatever is below the last level, the run and the
result are the same. -/
theorem Run.Exporting.convertRootWithin_eq {run : Run} (h : run.Exporting host root)
    (bottom : SymbolId → ConvertM Unit) :
    FlatBundle.convertRootWithin bottom root run = FlatBundle.convertRoot root run := by
  let fail : SymbolId → ConvertM Unit := fun _ => throw (.invalidState "" "")
  obtain ⟨exported, later, succeeds, -⟩ := h.convertRootWithin fail
  -- a level that fails is refined by any other, as it never succeeds
  have refines : ∀ bottom : SymbolId → ConvertM Unit,
      FlatBundle.convertRootWithin bottom root run = (.ok exported, later) := by
    intro bottom
    refine refines_convertRootWithin (fun id _ _ _ impossible => ?_) root run exported later succeeds
    cases congrArg Prod.fst impossible
  rw [← convertRootWithin_nothing, refines bottom, refines]

end FlatBundle
