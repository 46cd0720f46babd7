import Mathlib.Data.List.Sort

-- The one element of a list whose score is below every other's. Sorting by the
-- score finds it, and in which order the list stood does not matter.
namespace LeastScore

inductive Pick (α : Type) where
  | none
  | tied
  | alone (best : α)

section
variable {α : Type} {score : α → Nat} {xs ys : List α} {best other : α}

def Alone (score : α → Nat) (xs : List α) (best : α) : Prop :=
  ∃ rest,xs.Perm (best :: rest) ∧ ∀ other ∈ rest,score best < score other

-- The first two of the sorted list tell whether the least score is shared.
def pick (score : α → Nat) (xs : List α) : Pick α :=
  match xs.insertionSort fun a b => score a ≤ score b with
  | [] => .none
  | [best] => .alone best
  | best :: other :: _ => if score other = score best then .tied else .alone best

theorem alone_perm (perm : xs.Perm ys) (alone : Alone score xs best) : Alone score ys best := by
  obtain ⟨rest,own,below⟩ := alone
  exact ⟨rest,perm.symm.trans own,below⟩

theorem alone_mem (alone : Alone score xs best) : best ∈ xs := by
  obtain ⟨rest,perm,-⟩ := alone
  exact perm.mem_iff.mpr List.mem_cons_self

theorem alone_least (alone : Alone score xs best) (member : other ∈ xs) : other = best ∨ score best < score other := by
  obtain ⟨rest,perm,below⟩ := alone
  exact (List.mem_cons.mp (perm.mem_iff.mp member)).imp id (below other)

theorem alone_unique (alone : Alone score xs best) (alone' : Alone score xs other) : best = other := by
  have below := alone_least alone (alone_mem alone')
  have above := alone_least alone' (alone_mem alone)
  cases below with
  | inl same => exact same.symm
  | inr less =>
    cases above with
    | inl same => exact same
    | inr more => omega

theorem alone_count (alone : Alone score xs best) : (xs.map score).count (score best) = 1 := by
  obtain ⟨rest,perm,below⟩ := alone
  have others : (rest.map score).count (score best) = 0 := by
    refine List.count_eq_zero.mpr fun member => ?_
    obtain ⟨other,inside,same⟩ := List.mem_map.mp member
    have := below other inside
    omega
  rw [(perm.map score).count_eq,List.map_cons,List.count_cons_self,others]

theorem sorted_pairwise (score : α → Nat) (xs : List α) :
    (xs.insertionSort fun a b => score a ≤ score b).Pairwise fun a b => score a ≤ score b := by
  have total : Std.Total fun a b : α => score a ≤ score b := ⟨fun a b => Nat.le_total _ _⟩
  have trans : IsTrans α fun a b => score a ≤ score b := ⟨fun _ _ _ => Nat.le_trans⟩
  exact List.pairwise_insertionSort _ xs

theorem pick_none (score : α → Nat) (xs : List α) : pick score xs = .none ↔ xs = [] := by
  have perm := List.perm_insertionSort (fun a b => score a ≤ score b) xs
  unfold pick
  cases sorted : xs.insertionSort fun a b => score a ≤ score b with
  | nil =>
    rw [sorted] at perm
    exact iff_of_true rfl perm.nil_eq.symm
  | cons best rest =>
    rw [sorted] at perm
    have filled : xs ≠ [] := by
      intro empty
      rw [empty] at perm
      exact List.cons_ne_nil _ _ perm.eq_nil
    refine iff_of_false ?_ filled
    cases rest with
    | nil => simp
    | cons other rest =>
      dsimp only
      split <;> simp

theorem pick_alone (score : α → Nat) (xs : List α) (best : α) : pick score xs = .alone best ↔ Alone score xs best := by
  have perm := List.perm_insertionSort (fun a b => score a ≤ score b) xs
  have ordered := sorted_pairwise score xs
  unfold pick
  generalize sorted : xs.insertionSort (fun a b => score a ≤ score b) = zs at perm ordered
  have moved : Alone score zs best ↔ Alone score xs best := ⟨alone_perm perm,alone_perm perm.symm⟩
  rw [←moved]
  match zs,ordered with
  | [],_ =>
    refine iff_of_false (by simp) fun alone => ?_
    cases alone_mem alone
  | [only],_ =>
    have own : Alone score [only] only := ⟨[],.refl _,by simp⟩
    constructor
    · intro is
      cases is
      exact own
    · intro alone
      rw [alone_unique alone own]
  | first :: second :: rest,ordered =>
    obtain ⟨above,later⟩ := List.pairwise_cons.mp ordered
    have nearest := above second List.mem_cons_self
    have beyond := (List.pairwise_cons.mp later).1
    by_cases tied : score second = score first
    · dsimp only
      rw [if_pos tied]
      refine iff_of_false (by simp) fun alone => ?_
      have least : score best ≤ score first := by
        cases alone_least alone List.mem_cons_self with
        | inl same => exact Nat.le_of_eq (congrArg score same.symm)
        | inr less => exact Nat.le_of_lt less
      have lowest : score first ≤ score best := by
        cases List.mem_cons.mp (alone_mem alone) with
        | inl same => exact Nat.le_of_eq (congrArg score same.symm)
        | inr inside => exact above best inside
      have once := alone_count alone
      rw [Nat.le_antisymm least lowest] at once
      simp [tied] at once
    · dsimp only
      rw [if_neg tied]
      have own : Alone score (first :: second :: rest) first := by
        refine ⟨second :: rest,.refl _,fun x member => ?_⟩
        cases List.mem_cons.mp member with
        | inl same =>
          rw [same]
          omega
        | inr inside =>
          have := beyond x inside
          omega
      constructor
      · intro is
        cases is
        exact own
      · intro alone
        rw [alone_unique alone own]

theorem pick_perm (perm : xs.Perm ys) : pick score xs = pick score ys := by
  cases right : pick score ys with
  | none =>
    rw [pick_none] at right ⊢
    rw [right] at perm
    exact perm.eq_nil
  | alone best =>
    rw [pick_alone] at right ⊢
    exact alone_perm perm.symm right
  | tied =>
    cases left : pick score xs with
    | tied => rfl
    | none =>
      rw [pick_none] at left
      rw [left] at perm
      rw [(pick_none score ys).mpr perm.symm.eq_nil] at right
      cases right
    | alone best =>
      rw [(pick_alone score ys best).mpr (alone_perm perm ((pick_alone score xs best).mp left))] at right
      cases right

end

end LeastScore
