import Mathlib.Data.List.Sort

-- The first answer that the members of a list give, when some of the list is
-- dropped, or when the list is put in order by a key.
namespace FirstGiven

variable {α β κ : Type}

-- Where the first answer is dropped, the first of those that stay is the same.
def Survives (stays : α → Bool) (give : α → Option β) (given : List α) : Prop :=
  ∀ before a after,given = before ++ a :: after → stays a = false →
    ∀ answer,give a = some answer → (∀ b ∈ before,give b = none) →
      (after.filter stays).findSome? give = some answer

theorem Survives.silent {stays : α → Bool} {give : α → Option β} {a : α} {given : List α} (silent : give a = none) :
    Survives stays give (a :: given) ↔ Survives stays give given := by
  constructor
  · intro survives before b after is dropped answer gives none
    refine survives (a :: before) b after (by rw [is,List.cons_append]) dropped answer gives ?_
    intro c member
    rcases List.mem_cons.mp member with rfl | old
    · exact silent
    · exact none c old
  · intro survives before b after is dropped answer gives none
    cases before with
    | nil =>
      cases is
      rw [silent] at gives
      cases gives
    | cons first before =>
      cases is
      exact survives before b after rfl dropped answer gives fun c member => none c (List.mem_cons_of_mem _ member)

theorem Survives.answered {stays : α → Bool} {give : α → Option β} {a : α} {answer : β} {given : List α}
    (gives : give a = some answer) : Survives stays give (a :: given) ↔
      (stays a = false → (given.filter stays).findSome? give = some answer) := by
  constructor
  · exact fun survives dropped => survives [] a given rfl dropped answer gives (by simp)
  · intro same before b after is dropped other gives' none
    cases before with
    | nil =>
      cases is
      cases gives.symm.trans gives'
      exact same dropped
    | cons first before =>
      cases is
      have silent := none a List.mem_cons_self
      rw [gives] at silent
      cases silent

theorem findSome_filter_iff (stays : α → Bool) (give : α → Option β) (given : List α) :
    (given.filter stays).findSome? give = given.findSome? give ↔ Survives stays give given := by
  induction given with
  | nil => simp [Survives]
  | cons a given ih =>
    cases gives : give a with
    | none =>
      rw [Survives.silent gives,←ih]
      cases stay : stays a <;> simp [stay,gives]
    | some answer =>
      rw [Survives.answered gives]
      cases stay : stays a <;> simp [stay,gives]

variable [LinearOrder κ] (key : α → κ)

-- An ordering by the key keeps the members of one key in their order.
theorem find_orderedInsert (k : κ) (a : α) (given : List α) :
    (given.orderedInsert (fun a b => key a ≤ key b) a).find? (fun b => key b = k) =
      (a :: given).find? (fun b => key b = k) := by
  induction given with
  | nil => rfl
  | cons b given ih =>
    by_cases before : key a ≤ key b
    · simp [List.orderedInsert,before]
    · have below : (b :: given).orderedInsert (fun a b => key a ≤ key b) a =
          b :: given.orderedInsert (fun a b => key a ≤ key b) a := by rw [List.orderedInsert,if_neg before]
      rw [below]
      by_cases own : key a = k
      · have other : key b ≠ k := fun same => before (by rw [own,same])
        simp [ih,own,other]
      · simp [ih,own,List.find?_cons]

theorem find_insertionSort (k : κ) (given : List α) :
    (given.insertionSort fun a b => key a ≤ key b).find? (fun b => key b = k) =
      given.find? (fun b => key b = k) := by
  induction given with
  | nil => rfl
  | cons a given ih =>
    rw [List.insertionSort_cons,find_orderedInsert,List.find?_cons,List.find?_cons,ih]

end FirstGiven
