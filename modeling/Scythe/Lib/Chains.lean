import Mathlib.Data.Set.Finite.Basic
import Mathlib.Data.Set.Card
import Mathlib.Logic.Relation

-- Chains in which each state has at most one successor.
namespace Chains
open Relation

def Step (next : σ → Option σ) (x y : σ) : Prop := next x = some y

inductive Ends (next : σ → Option σ) : σ → Prop where
  | stop {x : σ} (last : next x = none) : Ends next x
  | step {x y : σ} (on : next x = some y) (rest : Ends next y) : Ends next x

variable {next : σ → Option σ} {x y : σ}

theorem ends_of_next (ends : Ends next x) (on : next x = some y) : Ends next y := by
  cases ends with
  | stop last =>
    rw [last] at on
    cases on
  | step other rest =>
    rw [other] at on
    cases on
    exact rest

theorem ends_along (ends : Ends next x) (leads : ReflTransGen (Step next) x y) : Ends next y := by
  induction leads with
  | refl => exact ends
  | tail _ on ih => exact ends_of_next ih on

-- A chain that comes back starts again from the state after this one.
theorem cycle_next (cycle : TransGen (Step next) x x) (on : next x = some y) : TransGen (Step next) y y := by
  obtain ⟨z,first,rest⟩ := TransGen.head'_iff.mp cycle
  have same : y = z := Option.some.inj (on.symm.trans first)
  subst same
  exact TransGen.tail' rest on

theorem ends_no_cycle (ends : Ends next x) : ¬TransGen (Step next) x x := by
  induction ends with
  | stop last =>
    intro cycle
    obtain ⟨z,first,_⟩ := TransGen.head'_iff.mp cycle
    rw [Step,last] at first
    cases first
  | step on _ ih => exact fun cycle => ih (cycle_next cycle on)

theorem finite_of_closed {s : Set σ} (finite : s.Finite) (start : x ∈ s)
    (closed : ∀ y ∈ s,∀ z,next y = some z → z ∈ s) : {y | ReflTransGen (Step next) x y}.Finite := by
  apply finite.subset
  intro y leads
  induction leads with
  | refl => exact start
  | tail _ on ih => exact closed _ ih _ on

theorem ends_of_no_cycle (finite : {y | ReflTransGen (Step next) x y}.Finite)
    (straight : ∀ y,ReflTransGen (Step next) x y → ¬TransGen (Step next) y y) : Ends next x := by
  generalize size : {y | ReflTransGen (Step next) x y}.ncard = n
  -- Each step leaves fewer states to reach: the state it leaves is one less.
  induction n using Nat.strongRecOn generalizing x with
  | ind n ih =>
    cases on : next x with
    | none => exact .stop on
    | some y =>
      have inside : {z | ReflTransGen (Step next) y z} ⊆ {z | ReflTransGen (Step next) x z} :=
        fun z leads => ReflTransGen.head on leads
      have left : x ∉ {z | ReflTransGen (Step next) y z} :=
        fun back => straight x .refl (TransGen.head' on back)
      have fewer := Set.ncard_lt_ncard (Set.ssubset_iff_of_subset inside |>.mpr ⟨x,.refl,left⟩) finite
      exact .step on (ih _ (size ▸ fewer) (finite.subset inside) (fun z leads => straight z (inside leads)) rfl)

-- A chain over finitely many states ends exactly when it meets no state again.
theorem ends_iff (finite : {y | ReflTransGen (Step next) x y}.Finite) :
    Ends next x ↔ ∀ y,ReflTransGen (Step next) x y → ¬TransGen (Step next) y y :=
  ⟨fun ends _ leads => ends_no_cycle (ends_along ends leads),ends_of_no_cycle finite⟩

end Chains
