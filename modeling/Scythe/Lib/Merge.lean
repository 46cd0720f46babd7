import Mathlib.Data.List.Nodup

-- Declarations that are put together from pieces. A piece has an identity, under
-- which it is taken once, and the names that it declares.
namespace Merge

variable {ι ν : Type} {frame : List ν} {pieces kept : List (ι × List ν)}

-- What keeps the names of the pieces from meeting.
structure Apart (frame : List ν) (pieces : List (ι × List ν)) : Prop where
  once : ∀ piece ∈ pieces,piece.2.Nodup
  framed : ∀ piece ∈ pieces,∀ name ∈ piece.2,name ∉ frame
  apart : ∀ piece ∈ pieces,∀ other ∈ pieces,piece.1 ≠ other.1 → ∀ name ∈ piece.2,name ∉ other.2

-- The pieces that were taken: each identity once, and no other pieces.
structure Taken (pieces kept : List (ι × List ν)) : Prop where
  distinct : (kept.map Prod.fst).Nodup
  same : ∀ piece,piece ∈ kept ↔ piece ∈ pieces

def names (frame : List ν) (kept : List (ι × List ν)) : List ν := frame ++ kept.flatMap Prod.snd

section
variable [DecidableEq ν]

theorem names_split (before after : List (ι × List ν)) (piece : ι × List ν) (name : ν) :
    (names frame (before ++ piece :: after)).count name =
      frame.count name + (before.flatMap Prod.snd).count name + piece.2.count name +
        (after.flatMap Prod.snd).count name := by
  unfold names
  simp only [List.flatMap_append,List.flatMap_cons,List.count_append]
  omega

theorem elsewhere {others : List (ι × List ν)} {name : ν} (none : ∀ other ∈ others,name ∉ other.2) :
    (others.flatMap Prod.snd).count name = 0 := by
  apply List.count_eq_zero.mpr
  intro member
  obtain ⟨other,inside,named⟩ := List.mem_flatMap.mp member
  exact none other inside named

-- Each name of a piece is declared once exactly when the pieces are apart.
theorem declared_once_iff (taken : Taken pieces kept) :
    (∀ piece ∈ pieces,∀ name ∈ piece.2,(names frame kept).count name = 1) ↔ Apart frame pieces := by
  constructor
  · intro once
    have split : ∀ piece ∈ pieces,∃ before after,kept = before ++ piece :: after :=
      fun piece member => List.append_of_mem ((taken.same piece).mpr member)
    refine ⟨?_,?_,?_⟩
    · intro piece member
      obtain ⟨before,after,is⟩ := split piece member
      apply List.nodup_iff_count_le_one.mpr
      intro name
      by_cases named : name ∈ piece.2
      · have total := once piece member name named
        rw [is,names_split] at total
        omega
      · rw [List.count_eq_zero.mpr named]
        exact Nat.zero_le 1
    · intro piece member name named framed
      obtain ⟨before,after,is⟩ := split piece member
      have total := once piece member name named
      rw [is,names_split] at total
      have here := List.count_pos_iff.mpr named
      have outside := List.count_pos_iff.mpr framed
      omega
    · intro piece member other inside differ name named also
      obtain ⟨before,after,is⟩ := split piece member
      have total := once piece member name named
      rw [is,names_split] at total
      have here := List.count_pos_iff.mpr named
      have among : other ∈ before ++ piece :: after := is ▸ (taken.same other).mpr inside
      have around : name ∈ before.flatMap Prod.snd ∨ name ∈ after.flatMap Prod.snd := by
        rcases List.mem_append.mp among with first | last
        · exact .inl (List.mem_flatMap.mpr ⟨other,first,also⟩)
        · rcases List.mem_cons.mp last with rfl | later
          · exact absurd rfl differ
          · exact .inr (List.mem_flatMap.mpr ⟨other,later,also⟩)
      rcases around with first | last
      · have twice := List.count_pos_iff.mpr first
        omega
      · have twice := List.count_pos_iff.mpr last
        omega
  · intro apart piece member name named
    obtain ⟨before,after,is⟩ := List.append_of_mem ((taken.same piece).mpr member)
    have distinct := taken.distinct
    rw [is,List.map_append,List.map_cons] at distinct
    have differs := (List.nodup_middle.mp distinct)
    have others : ∀ other ∈ before ++ after,name ∉ other.2 := by
      intro other inside
      have given : other ∈ pieces := by
        apply (taken.same other).mp
        rw [is]
        rcases List.mem_append.mp inside with first | last
        · exact List.mem_append_left _ first
        · exact List.mem_append_right _ (List.mem_cons_of_mem _ last)
      have new : piece.1 ∉ (before ++ after).map Prod.fst := by
        rw [List.map_append]
        exact (List.nodup_cons.mp differs).1
      have apartFrom : piece.1 ≠ other.1 := fun same => new (List.mem_map.mpr ⟨other,inside,same.symm⟩)
      exact apart.apart piece member other given apartFrom name named
    rw [is,names_split]
    have outside := List.count_eq_zero.mpr (apart.framed piece member name named)
    have here := List.count_eq_one_of_mem (apart.once piece member) named
    have first := elsewhere fun other inside => others other (List.mem_append_left _ inside)
    have last := elsewhere fun other inside => others other (List.mem_append_right _ inside)
    omega

end
end Merge
