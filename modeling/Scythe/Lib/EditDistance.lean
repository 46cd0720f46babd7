import Mathlib.Order.Bounds.Basic

-- The least number of single insertions, deletions and substitutions that lead from
-- one list to another, and the two rows that compute it.
namespace EditDistance

section Edits
variable {α : Type}

inductive Edit : List α → List α → Prop where
  | insert (before : List α) (x : α) (after : List α) : Edit (before ++ after) (before ++ x :: after)
  | delete (before : List α) (x : α) (after : List α) : Edit (before ++ x :: after) (before ++ after)
  | substitute (before : List α) (x y : α) (after : List α) : Edit (before ++ x :: after) (before ++ y :: after)

inductive Edits : Nat → List α → List α → Prop where
  | refl (xs : List α) : Edits 0 xs xs
  | step {xs ys zs : List α} {n : Nat} : Edit xs ys → Edits n ys zs → Edits (n + 1) xs zs

theorem Edit.cons {xs ys : List α} (edit : Edit xs ys) (x : α) : Edit (x :: xs) (x :: ys) := by
  cases edit with
  | insert before y after => exact .insert (x :: before) y after
  | delete before y after => exact .delete (x :: before) y after
  | substitute before y z after => exact .substitute (x :: before) y z after

theorem Edit.reverse {xs ys : List α} (edit : Edit xs ys) : Edit xs.reverse ys.reverse := by
  cases edit with
  | insert before x after =>
    rw [List.reverse_append,List.reverse_append,List.reverse_cons,List.append_assoc]
    exact .insert after.reverse x before.reverse
  | delete before x after =>
    rw [List.reverse_append,List.reverse_append,List.reverse_cons,List.append_assoc]
    exact .delete after.reverse x before.reverse
  | substitute before x y after =>
    rw [List.reverse_append,List.reverse_append,List.reverse_cons,List.reverse_cons,List.append_assoc,List.append_assoc]
    exact .substitute after.reverse x y before.reverse

theorem Edits.cons {n : Nat} {xs ys : List α} (edits : Edits n xs ys) (x : α) : Edits n (x :: xs) (x :: ys) := by
  induction edits with
  | refl xs => exact .refl _
  | step edit _ ih => exact .step (edit.cons x) ih

theorem Edits.reverse {n : Nat} {xs ys : List α} (edits : Edits n xs ys) : Edits n xs.reverse ys.reverse := by
  induction edits with
  | refl xs => exact .refl _
  | step edit _ ih => exact .step edit.reverse ih

theorem edits_reversed {n : Nat} {xs ys : List α} : Edits n xs.reverse ys.reverse ↔ Edits n xs ys := by
  refine ⟨fun edits => ?_,Edits.reverse⟩
  have back := edits.reverse
  rwa [List.reverse_reverse,List.reverse_reverse] at back

theorem deletes (xs : List α) : Edits xs.length xs [] := by
  induction xs with
  | nil => exact .refl []
  | cons x xs ih => exact .step (.delete [] x xs) ih

theorem inserts (ys : List α) : Edits ys.length [] ys := by
  induction ys with
  | nil => exact .refl []
  | cons y ys ih => exact .step (.insert [] y []) (ih.cons y)

end Edits

section Distance
variable {α : Type} [DecidableEq α]

def cost (x y : α) : Nat := if x = y then 0 else 1

def distance : List α → List α → Nat
  | [],ys => ys.length
  | _ :: xs,[] => xs.length + 1
  | x :: xs,y :: ys =>
    min (distance xs ys + cost x y) (min (distance xs (y :: ys) + 1) (distance (x :: xs) ys + 1))

theorem distance_nil (xs : List α) : distance xs [] = xs.length := by
  cases xs with
  | nil => rw [distance]
  | cons x xs => rw [distance,List.length_cons]

theorem distance_cons (x : α) (xs : List α) (y : α) (ys : List α) : distance (x :: xs) (y :: ys) =
    min (distance xs ys + cost x y) (min (distance xs (y :: ys) + 1) (distance (x :: xs) ys + 1)) := by
  rw [distance]

theorem cost_le (x y : α) : cost x y ≤ 1 := by
  unfold cost
  split
  · exact Nat.zero_le 1
  · exact Nat.le_refl 1

theorem distance_self (xs : List α) : distance xs xs = 0 := by
  induction xs with
  | nil => exact distance_nil []
  | cons x xs ih =>
    have same : cost x x = 0 := if_pos rfl
    rw [distance_cons,ih,same]
    exact Nat.zero_min _

-- As many edits as the distance do.
theorem edits_distance (xs ys : List α) : Edits (distance xs ys) xs ys := by
  induction xs generalizing ys with
  | nil =>
    rw [distance]
    exact inserts ys
  | cons x xs ih =>
    induction ys with
    | nil =>
      rw [distance_nil]
      exact deletes _
    | cons y ys rest =>
      have replace : Edits (distance xs ys + cost x y) (x :: xs) (y :: ys) := by
        by_cases same : x = y
        · rw [same,show cost y y = 0 from if_pos rfl]
          exact (ih ys).cons y
        · rw [show cost x y = 1 from if_neg same]
          exact .step (.substitute [] x y xs) ((ih ys).cons y)
      have delete : Edits (distance xs (y :: ys) + 1) (x :: xs) (y :: ys) := .step (.delete [] x xs) (ih (y :: ys))
      have insert : Edits (distance (x :: xs) ys + 1) (x :: xs) (y :: ys) := .step (.insert [] y (x :: xs)) (rest.cons y)
      rw [distance_cons]
      rcases Nat.le_total (distance xs ys + cost x y) (min (distance xs (y :: ys) + 1) (distance (x :: xs) ys + 1)) with
        first | later
      · rwa [Nat.min_eq_left first]
      · rw [Nat.min_eq_right later]
        rcases Nat.le_total (distance xs (y :: ys) + 1) (distance (x :: xs) ys + 1) with second | third
        · rwa [Nat.min_eq_left second]
        · rwa [Nat.min_eq_right third]

theorem distance_dropped (x : α) (xs ys : List α) : distance xs ys ≤ distance (x :: xs) ys + 1 := by
  induction ys with
  | nil =>
    rw [distance_nil,distance_nil,List.length_cons]
    omega
  | cons y ys ih =>
    have inserted : distance xs (y :: ys) ≤ distance xs ys + 1 := by
      cases xs with
      | nil =>
        rw [distance,distance]
        exact Nat.le_refl _
      | cons x xs =>
        rw [distance_cons]
        omega
    rw [distance_cons]
    omega

theorem distance_added (x : α) (xs ys : List α) : distance (x :: xs) ys ≤ distance xs ys + 1 := by
  cases ys with
  | nil =>
    rw [distance_nil,distance_nil,List.length_cons]
  | cons y ys =>
    rw [distance_cons]
    omega

theorem distance_replaced (x y : α) (xs ys : List α) : distance (x :: xs) ys ≤ distance (y :: xs) ys + 1 := by
  induction ys with
  | nil =>
    rw [distance_nil,distance_nil,List.length_cons,List.length_cons]
    omega
  | cons z ys ih =>
    have first := cost_le x z
    rw [distance_cons,distance_cons]
    omega

-- What holds of two lists holds behind one more element of both.
theorem distance_behind {xs xs' : List α} (near : ∀ ys,distance xs ys ≤ distance xs' ys + 1) (x : α) (ys : List α) :
    distance (x :: xs) ys ≤ distance (x :: xs') ys + 1 := by
  induction ys with
  | nil =>
    have shorter := near []
    rw [distance_nil,distance_nil] at shorter
    rw [distance_nil,distance_nil,List.length_cons,List.length_cons]
    omega
  | cons y ys ih =>
    have both := near ys
    have one := near (y :: ys)
    rw [distance_cons,distance_cons]
    omega

theorem distance_after {xs xs' : List α} (near : ∀ ys,distance xs ys ≤ distance xs' ys + 1) (before : List α) :
    ∀ ys,distance (before ++ xs) ys ≤ distance (before ++ xs') ys + 1 := by
  induction before with
  | nil => exact near
  | cons x before ih => exact distance_behind ih x

theorem edit_distance {xs xs' : List α} (edit : Edit xs xs') (ys : List α) : distance xs ys ≤ distance xs' ys + 1 := by
  cases edit with
  | insert before x after => exact distance_after (distance_dropped x after) before ys
  | delete before x after => exact distance_after (distance_added x after) before ys
  | substitute before x y after => exact distance_after (distance_replaced x y after) before ys

theorem distance_le {n : Nat} {xs ys : List α} (edits : Edits n xs ys) : distance xs ys ≤ n := by
  induction edits with
  | refl xs => exact Nat.le_of_eq (distance_self xs)
  | step edit _ ih => exact (edit_distance edit _).trans (Nat.succ_le_succ ih)

theorem distance_least (xs ys : List α) : IsLeast {n | Edits n xs ys} (distance xs ys) :=
  ⟨edits_distance xs ys,fun _ edits => distance_le edits⟩

theorem distance_reverse (xs ys : List α) : distance xs.reverse ys.reverse = distance xs ys :=
  Nat.le_antisymm (distance_le (edits_distance xs ys).reverse)
    (distance_le (edits_reversed.mp (edits_distance xs.reverse ys.reverse)))

end Distance

section Rows
variable {α : Type} [DecidableEq α]

-- One row from the row above it, over what another row has left behind.
def fillRow (least : Nat → Nat → Nat → Nat) (prev : List Nat) (x : α) : Nat → List α → List Nat → List Nat
  | _,[],current => current
  | j,y :: ys,current =>
    fillRow least prev x (j + 1) ys
      (current.set (j + 1) (least (prev.getD j 0 + cost x y) (prev.getD (j + 1) 0 + 1) (current.getD j 0 + 1)))

-- The rows change places after each element.
def fillRows (least : Nat → Nat → Nat → Nat) (ys : List α) : Nat → List α → List Nat → List Nat → List Nat
  | _,[],prev,_ => prev
  | i,x :: xs,prev,current =>
    fillRows least ys (i + 1) xs (fillRow least prev x 0 ys (current.set 0 (i + 1))) prev

def twoRow (least : Nat → Nat → Nat → Nat) (xs ys : List α) : Nat :=
  (fillRows least ys 0 xs (List.range (ys.length + 1)) (List.replicate (ys.length + 1) 0)).getD ys.length 0

-- The row of a reversed beginning of the first list: its distance from each beginning
-- of the second.
def entry (done : List α) (ys : List α) (j : Nat) : Nat := distance done (ys.take j).reverse

structure Row (done ys : List α) (row : List Nat) : Prop where
  length : row.length = ys.length + 1
  entries : ∀ j ≤ ys.length,row.getD j 0 = entry done ys j

theorem entry_first (done ys : List α) : entry done ys 0 = done.length := by
  rw [entry,List.take_zero,List.reverse_nil,distance_nil]

theorem entry_next (x : α) (done : List α) {ys : List α} {j : Nat} {y : α} (here : ys[j]? = some y) :
    entry (x :: done) ys (j + 1) =
      min (entry done ys j + cost x y) (min (entry done ys (j + 1) + 1) (entry (x :: done) ys j + 1)) := by
  have shape : (ys.take (j + 1)).reverse = y :: (ys.take j).reverse := by
    rw [List.take_add_one,here,List.reverse_append]
    rfl
  unfold entry
  rw [shape,distance_cons]

theorem fillRow_entries {least : Nat → Nat → Nat → Nat} (least_eq : ∀ a b c,least a b c = min a (min b c)) (x : α)
    {done ys : List α} {prev : List Nat} (above : Row done ys prev) {j : Nat} {rest : List α} {current : List Nat}
    (left : ys.drop j = rest) (within : j ≤ ys.length) (length : current.length = ys.length + 1)
    (filled : ∀ k ≤ j,current.getD k 0 = entry (x :: done) ys k) :
    Row (x :: done) ys (fillRow least prev x j rest current) := by
  induction rest generalizing j current with
  | nil =>
    have behind := List.drop_eq_nil_iff.mp left
    exact ⟨length,fun k bound => filled k (bound.trans behind)⟩
  | cons y rest ih =>
    have here : ys[j]? = some y := by
      rw [← List.head?_drop,left]
      rfl
    have inside : j < ys.length := (List.getElem?_eq_some_iff.mp here).1
    rw [fillRow,least_eq,above.entries j within,above.entries (j + 1) inside,filled j (Nat.le_refl j),← entry_next x done here]
    refine ih ?_ inside (by rw [List.length_set,length]) fun k bound => ?_
    · rw [← List.tail_drop,left]
      rfl
    · rcases Nat.lt_or_ge k (j + 1) with before | reached
      · rw [List.getD_eq_getElem?_getD,List.getElem?_set_ne (by omega),← List.getD_eq_getElem?_getD]
        exact filled k (by omega)
      · obtain rfl : k = j + 1 := by omega
        rw [List.getD_eq_getElem?_getD,List.getElem?_set_self (by omega)]
        rfl

theorem fillRows_row {least : Nat → Nat → Nat → Nat} (least_eq : ∀ a b c,least a b c = min a (min b c))
    (xs : List α) {done ys : List α} {prev current : List Nat} (above : Row done ys prev)
    (length : current.length = ys.length + 1) :
    Row (xs.reverse ++ done) ys (fillRows least ys done.length xs prev current) := by
  induction xs generalizing done prev current with
  | nil => exact above
  | cons x xs ih =>
    have next : Row (x :: done) ys (fillRow least prev x 0 ys (current.set 0 (done.length + 1))) := by
      refine fillRow_entries least_eq x above rfl (Nat.zero_le _) (by rw [List.length_set,length]) fun k bound => ?_
      obtain rfl := Nat.le_zero.mp bound
      rw [List.getD_eq_getElem?_getD,List.getElem?_set_self (by omega),entry_first]
      rfl
    rw [fillRows,List.reverse_cons,List.append_assoc]
    exact ih next above.length

theorem range_row (ys : List α) : Row [] ys (List.range (ys.length + 1)) := by
  refine ⟨List.length_range,fun j bound => ?_⟩
  rw [entry,distance,List.length_reverse,List.length_take,Nat.min_eq_left bound,List.getD_eq_getElem?_getD,
    List.getElem?_range (by omega)]
  rfl

theorem twoRow_distance {least : Nat → Nat → Nat → Nat} (least_eq : ∀ a b c,least a b c = min a (min b c))
    (xs ys : List α) : twoRow least xs ys = distance xs ys := by
  have last := fillRows_row least_eq xs (range_row ys) (List.length_replicate (a := 0))
  have value := last.entries ys.length (Nat.le_refl _)
  rw [List.append_nil,entry,List.take_length,distance_reverse] at value
  exact value

end Rows

end EditDistance
