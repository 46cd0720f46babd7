import Mathlib.Data.List.Perm.Basic

namespace Widening

-- Values that widen to a common one. Those of a scale have a least upper bound,
-- one value stands for nothing known, and of any two others the first stays.
structure Scale (α : Type) where
  unknown : α
  graded : α → Bool
  sup : α → α → α
  unknown_ungraded : graded unknown = false
  sup_graded : ∀ a b,graded a → graded b → graded (sup a b)
  sup_self : ∀ a,graded a → sup a a = a
  sup_comm : ∀ a b,graded a → graded b → sup a b = sup b a
  sup_assoc : ∀ a b c,graded a → graded b → graded c → sup (sup a b) c = sup a (sup b c)

namespace Scale

variable {α : Type} [DecidableEq α] (scale : Scale α)

def merge (a b : α) : α :=
  if a = scale.unknown then b else
  if b = scale.unknown then a else
  if scale.graded a ∧ scale.graded b then scale.sup a b else a

def mergeAll (values : List α) : α := values.foldl scale.merge scale.unknown

-- Two values that have one to widen to.
def Compatible (a b : α) : Prop :=
  a = b ∨ a = scale.unknown ∨ b = scale.unknown ∨ scale.graded a ∧ scale.graded b

@[simp] theorem merge_unknown_left (a : α) : scale.merge scale.unknown a = a := if_pos rfl

@[simp] theorem merge_unknown_right (a : α) : scale.merge a scale.unknown = a := by
  unfold merge
  split
  · rename_i same
    exact same.symm
  · exact if_pos rfl

omit [DecidableEq α] in
theorem graded_known {a : α} (graded : scale.graded a) : a ≠ scale.unknown := by
  rintro rfl
  rw [scale.unknown_ungraded] at graded
  cases graded

theorem merge_graded {a b : α} (left : scale.graded a) (right : scale.graded b) : scale.merge a b = scale.sup a b := by
  unfold merge
  rw [if_neg (scale.graded_known left),if_neg (scale.graded_known right),if_pos ⟨left,right⟩]

-- A value outside the scale stays what it is.
theorem merge_outside {a : α} (known : a ≠ scale.unknown) (outside : ¬scale.graded a) (b : α) :
    scale.merge a b = a := by
  unfold merge
  rw [if_neg known]
  split
  · rfl
  · exact if_neg fun both => outside both.1

theorem merge_into {a b : α} (graded : scale.graded a) (outside : ¬scale.graded b) : scale.merge a b = a := by
  unfold merge
  rw [if_neg (scale.graded_known graded)]
  split
  · rfl
  · exact if_neg fun both => outside both.2

@[simp] theorem merge_self (a : α) : scale.merge a a = a := by
  by_cases graded : scale.graded a
  · rw [scale.merge_graded graded graded,scale.sup_self a graded]
  · by_cases known : a = scale.unknown
    · rw [known,merge_unknown_left]
    · exact scale.merge_outside known graded a

theorem merge_comm_iff (a b : α) : scale.merge a b = scale.merge b a ↔ scale.Compatible a b := by
  unfold Compatible
  by_cases unknownA : a = scale.unknown
  · subst unknownA
    simp
  by_cases unknownB : b = scale.unknown
  · subst unknownB
    simp
  by_cases gradedA : scale.graded a
  · by_cases gradedB : scale.graded b
    · rw [scale.merge_graded gradedA gradedB,scale.merge_graded gradedB gradedA,scale.sup_comm a b gradedA gradedB]
      simp [gradedA,gradedB]
    · rw [scale.merge_into gradedA gradedB,scale.merge_outside unknownB gradedB]
      simp [unknownA,unknownB,gradedB]
  · rw [scale.merge_outside unknownA gradedA]
    by_cases gradedB : scale.graded b
    · rw [scale.merge_into gradedB gradedA]
      simp [unknownA,unknownB,gradedA]
    · rw [scale.merge_outside unknownB gradedB]
      simp [unknownA,unknownB,gradedA]

-- What three values widen to depends on the grouping only where the middle one
-- has nothing in common with graded ones on both sides.
theorem merge_assoc_iff (a b c : α) : scale.merge (scale.merge a b) c = scale.merge a (scale.merge b c) ↔
    (scale.graded a → scale.graded c → b = scale.unknown ∨ scale.graded b ∨ scale.sup a c = a) := by
  by_cases gradedA : scale.graded a
  · by_cases unknownB : b = scale.unknown
    · subst unknownB
      simp
    by_cases gradedB : scale.graded b
    · have trivially : scale.graded a → scale.graded c → b = scale.unknown ∨ scale.graded b ∨ scale.sup a c = a :=
        fun _ _ => .inr (.inl gradedB)
      refine iff_of_true ?_ trivially
      have both := scale.sup_graded a b gradedA gradedB
      rw [scale.merge_graded gradedA gradedB]
      by_cases gradedC : scale.graded c
      · rw [scale.merge_graded both gradedC,scale.merge_graded gradedB gradedC,
          scale.merge_graded gradedA (scale.sup_graded b c gradedB gradedC),
          scale.sup_assoc a b c gradedA gradedB gradedC]
      · rw [scale.merge_into both gradedC,scale.merge_into gradedB gradedC,scale.merge_graded gradedA gradedB]
    · rw [scale.merge_into gradedA gradedB,scale.merge_outside unknownB gradedB,scale.merge_into gradedA gradedB]
      by_cases gradedC : scale.graded c
      · rw [scale.merge_graded gradedA gradedC]
        simp [gradedA,gradedC,unknownB,gradedB]
      · rw [scale.merge_into gradedA gradedC]
        simp [gradedC]
  · refine iff_of_true ?_ fun graded => absurd graded gradedA
    by_cases unknownA : a = scale.unknown
    · rw [unknownA,merge_unknown_left,merge_unknown_left]
    · rw [scale.merge_outside unknownA gradedA,scale.merge_outside unknownA gradedA,
        scale.merge_outside unknownA gradedA]

theorem merge_swap {a b : α} (compatible : scale.Compatible a b) (start : α) :
    scale.merge (scale.merge start a) b = scale.merge (scale.merge start b) a := by
  by_cases unknown : start = scale.unknown
  · rw [unknown,merge_unknown_left,merge_unknown_left]
    exact (scale.merge_comm_iff a b).mpr compatible
  by_cases graded : scale.graded start
  · rcases compatible with rfl | rfl | rfl | ⟨gradedA,gradedB⟩
    · rfl
    · rw [merge_unknown_right,merge_unknown_right]
    · rw [merge_unknown_right,merge_unknown_right]
    · rw [scale.merge_graded graded gradedA,scale.merge_graded graded gradedB,
        scale.merge_graded (scale.sup_graded _ _ graded gradedA) gradedB,
        scale.merge_graded (scale.sup_graded _ _ graded gradedB) gradedA,scale.sup_assoc _ _ _ graded gradedA gradedB,
        scale.sup_assoc _ _ _ graded gradedB gradedA,scale.sup_comm a b gradedA gradedB]
  · rw [scale.merge_outside unknown graded,scale.merge_outside unknown graded,scale.merge_outside unknown graded]

-- What a fold that starts inside the scale, or outside it, ends with.
theorem foldl_graded {start : α} (graded : scale.graded start) (values : List α) :
    scale.graded (values.foldl scale.merge start) := by
  refine List.foldlRecOn (motive := fun widened => scale.graded widened = true) values scale.merge graded ?_
  intro widened holds value _
  by_cases gradedB : scale.graded value
  · rw [scale.merge_graded holds gradedB]
    exact scale.sup_graded _ _ holds gradedB
  · rwa [scale.merge_into holds gradedB]

theorem foldl_outside {start : α} (known : start ≠ scale.unknown) (outside : ¬scale.graded start) (values : List α) :
    values.foldl scale.merge start = start := by
  refine List.foldlRecOn (motive := fun widened => widened = start) values scale.merge rfl ?_
  intro widened same value _
  rw [same,scale.merge_outside known outside]

-- Every order of the values gives one result when, and only when, any two of them
-- have one to widen to.
theorem mergeAll_perm_iff (values : List α) :
    (∀ others,others.Perm values → scale.mergeAll others = scale.mergeAll values) ↔
      ∀ a ∈ values,∀ b ∈ values,scale.Compatible a b := by
  constructor
  · intro stable a memberA b memberB
    by_contra incompatible
    obtain ⟨differ,known,knownB,notBoth⟩ : a ≠ b ∧ a ≠ scale.unknown ∧ b ≠ scale.unknown ∧
        ¬(scale.graded a ∧ scale.graded b) := by
      unfold Compatible at incompatible
      simpa only [not_or] using incompatible
    -- Each of the two may come first; one of them is outside the scale.
    have first : ∀ x ∈ values,scale.mergeAll values = (values.erase x).foldl scale.merge x := by
      intro x member
      rw [←stable (x :: values.erase x) (List.perm_cons_erase member).symm]
      unfold mergeAll
      rw [List.foldl_cons,merge_unknown_left]
    have fromA := first a memberA
    have fromB := first b memberB
    by_cases gradedA : scale.graded a
    · have outside : ¬scale.graded b := fun gradedB => notBoth ⟨gradedA,gradedB⟩
      rw [scale.foldl_outside knownB outside] at fromB
      have graded := scale.foldl_graded gradedA (values.erase a)
      rw [←fromA,fromB] at graded
      exact outside graded
    · rw [scale.foldl_outside known gradedA] at fromA
      by_cases gradedB : scale.graded b
      · have graded := scale.foldl_graded gradedB (values.erase b)
        rw [←fromB,fromA] at graded
        exact gradedA graded
      · rw [scale.foldl_outside knownB gradedB] at fromB
        exact differ (fromA.symm.trans fromB)
  · intro compatible others perm
    refine perm.foldl_eq' ?_ scale.unknown
    intro a memberA b memberB start
    exact scale.merge_swap (compatible a (perm.mem_iff.mp memberA) b (perm.mem_iff.mp memberB)) start

end Scale
end Widening
