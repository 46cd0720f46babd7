import Mathlib.Data.List.Basic

-- A text is cut behind each mark that counts. Whether one does depends on what
-- stands before it.
namespace Cuts
variable {α : Type} [DecidableEq α]

-- `current` is the piece that is being read; a last piece may be left out.
def cutWhere (live : List α → Bool) (mark : α) (dropped : List α → Bool) : List α → List α → List α → List (List α)
  | _,current,[] => if dropped current then [] else [current]
  | before,current,c :: cs =>
    if c = mark ∧ live before = true then (current ++ [c]) :: cutWhere live mark dropped (before ++ [c]) [] cs
    else cutWhere live mark dropped (before ++ [c]) (current ++ [c]) cs

variable {live other : List α → Bool} {mark : α} {dropped : List α → Bool}

theorem cutWhere_copied {before current read rest : List α}
    (unmarked : ∀ front back,read = front ++ mark :: back → live (before ++ front) = false) :
    cutWhere live mark dropped before current (read ++ rest) =
      cutWhere live mark dropped (before ++ read) (current ++ read) rest := by
  induction read generalizing before current with
  | nil => simp
  | cons c read ih =>
    have here : ¬(c = mark ∧ live before = true) := by
      intro ⟨same,counts⟩
      have not := unmarked [] read (by rw [same]; rfl)
      rw [List.append_nil,counts] at not
      cases not
    have later : ∀ front back,read = front ++ mark :: back → live (before ++ [c] ++ front) = false := by
      intro front back is
      have not := unmarked (c :: front) back (by rw [is]; rfl)
      simpa using not
    rw [List.cons_append,cutWhere,if_neg here,ih later]
    simp

-- What is read first is in the first piece.
theorem cutWhere_first {before current : List α} {cs : List α} (kept : ∀ more,dropped (current ++ more) = false) :
    ∃ first pieces,cutWhere live mark dropped before current cs = first :: pieces ∧ current <+: first ∧
      (cs ≠ [] → first ≠ current) := by
  induction cs generalizing before current with
  | nil =>
    have stays : dropped current = false := by simpa using kept []
    exact ⟨current,[],by simp [cutWhere,stays],List.prefix_refl _,fun some' => absurd rfl some'⟩
  | cons c cs ih =>
    have longer : current ++ [c] ≠ current := by simp
    unfold cutWhere
    split
    · exact ⟨_,_,rfl,List.prefix_append _ _,fun _ => longer⟩
    · obtain ⟨first,pieces,is,begins,-⟩ := @ih (before ++ [c]) (current ++ [c]) fun more => by simpa using kept (c :: more)
      refine ⟨first,pieces,is,(List.prefix_append _ _).trans begins,fun _ same => ?_⟩
      rw [same] at begins
      have length := begins.length_le
      rw [List.length_append,List.length_singleton] at length
      exact absurd length (Nat.not_succ_le_self _)

-- Two ways of counting cut a text alike exactly when they count the same marks,
-- except for one at its very end, where the text ends the piece anyway.
theorem cutWhere_eq_iff {before current cs : List α} (kept : ∀ front back,dropped (front ++ mark :: back) = false)
    (nothing : dropped [] = true) :
    cutWhere live mark dropped before current cs = cutWhere other mark dropped before current cs ↔
      ∀ front back,cs = front ++ mark :: back → back ≠ [] → live (before ++ front) = other (before ++ front) := by
  induction cs generalizing before current with
  | nil =>
    constructor
    · intro _ front back is
      cases front <;> cases is
    · intro _
      rfl
  | cons c cs ih =>
    have shifted : (∀ front back,c :: cs = front ++ mark :: back → back ≠ [] →
          live (before ++ front) = other (before ++ front)) ↔
        (c = mark → cs ≠ [] → live before = other before) ∧
          ∀ front back,cs = front ++ mark :: back → back ≠ [] →
            live (before ++ [c] ++ front) = other (before ++ [c] ++ front) := by
      constructor
      · intro every
        constructor
        · intro same more
          have here := every [] cs (by rw [same]; rfl) more
          simpa using here
        · intro front back is more
          have later := every (c :: front) back (by rw [is]; rfl) more
          simpa using later
      · intro ⟨here,later⟩ front back is more
        cases front with
        | nil =>
          rw [List.nil_append,List.cons.injEq] at is
          obtain ⟨same,rfl⟩ := is
          simpa using here same more
        | cons d front =>
          rw [List.cons_append,List.cons.injEq] at is
          obtain ⟨rfl,is⟩ := is
          simpa using later front back is more
    rw [shifted]
    by_cases marked : c = mark
    · subst marked
      cases one : live before <;> cases two : other before
      · simp [cutWhere,one,two,ih]
      · rw [cutWhere,cutWhere,if_neg (by simp [one]),if_pos ⟨rfl,two⟩]
        cases cs with
        | nil => simp [cutWhere,nothing,kept current []]
        | cons d cs =>
          obtain ⟨first,pieces,is,-,grown⟩ := @cutWhere_first _ _ live c dropped (before ++ [c]) (current ++ [c]) (d :: cs)
            fun more => by simpa using kept current more
          rw [is]
          simp [grown]
      · rw [cutWhere,cutWhere,if_pos ⟨rfl,one⟩,if_neg (by simp [two])]
        cases cs with
        | nil => simp [cutWhere,nothing,kept current []]
        | cons d cs =>
          obtain ⟨first,pieces,is,-,grown⟩ := @cutWhere_first _ _ other c dropped (before ++ [c]) (current ++ [c]) (d :: cs)
            fun more => by simpa using kept current more
          rw [is]
          simp [Ne.symm (grown (by simp))]
      · simp [cutWhere,one,two,ih]
    · simp [cutWhere,marked,ih]

end Cuts
