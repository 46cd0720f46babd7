import Mathlib.Data.List.Basic

-- Rewriting a text in which a mark is replaced by one sign. A machine reads the
-- text one character after another and says at which marks it does so.
namespace Marks

structure Machine (σ : Type) where
  step : σ → Char → σ
  live : σ → List Char → Bool

-- Whether a mark begins a text, and how many of its characters come behind the first.
structure Mark where
  length : List Char → Option Nat
  sign : Char
  none_nil : length [] = none
  apart : ∀ c cs extra,length (c :: cs) = some extra →
    c ≠ sign ∧ extra ≤ cs.length ∧ ∀ index < extra,length (cs.drop index) = none

variable {σ τ : Type} (mark : Mark)

def Machine.rewrite (machine : Machine σ) : Nat → σ → List Char → List Char
  | _,_,[] => []
  | skip + 1,s,c :: cs => machine.rewrite skip (machine.step s c) cs
  | 0,s,c :: cs =>
    match mark.length (c :: cs) with
    | some extra =>
      if machine.live s (c :: cs) then mark.sign :: machine.rewrite extra (machine.step s c) cs
      else c :: machine.rewrite 0 (machine.step s c) cs
    | none => c :: machine.rewrite 0 (machine.step s c) cs

variable {mark}

-- Both machines replace the same marks of the text.
def Alike (mark : Mark) (machine : Machine σ) (other : Machine τ) (s : σ) (t : τ) (cs : List Char) : Prop :=
  ∀ before after,cs = before ++ after → (mark.length after).isSome →
    machine.live (before.foldl machine.step s) after = other.live (before.foldl other.step t) after

variable {machine : Machine σ} {other : Machine τ}

theorem alike_cons {s : σ} {t : τ} {c : Char} {cs : List Char} :
    Alike mark machine other s t (c :: cs) ↔
      ((mark.length (c :: cs)).isSome → machine.live s (c :: cs) = other.live t (c :: cs)) ∧
        Alike mark machine other (machine.step s c) (other.step t c) cs := by
  constructor
  · intro alike
    refine ⟨alike [] (c :: cs) rfl,?_⟩
    intro before after is marked
    exact alike (c :: before) after (by rw [is,List.cons_append]) marked
  · rintro ⟨here,later⟩ before after is marked
    cases before with
    | nil =>
      rw [List.nil_append] at is
      subst is
      exact here marked
    | cons d before =>
      rw [List.cons_append,List.cons.injEq] at is
      obtain ⟨rfl,rfl⟩ := is
      exact later before after rfl marked

-- The texts that two machines make are the same exactly when they replace the same
-- marks: at the first mark that only one replaces, the other's text has the mark.
theorem rewrite_eq_iff (cs : List Char) (skip : Nat) (s : σ) (t : τ)
    (quiet : ∀ index < skip,mark.length (cs.drop index) = none) :
    machine.rewrite mark skip s cs = other.rewrite mark skip t cs ↔ Alike mark machine other s t cs := by
  induction cs generalizing skip s t with
  | nil =>
    have alike : Alike mark machine other s t [] := by
      intro before after is marked
      obtain ⟨rfl,rfl⟩ := List.append_eq_nil_iff.mp is.symm
      rw [mark.none_nil] at marked
      cases marked
    simp [Machine.rewrite,alike]
  | cons c cs ih =>
    rw [alike_cons]
    cases skip with
    | succ skip =>
      have unmarked : mark.length (c :: cs) = none := quiet 0 (Nat.succ_pos _)
      have later : ∀ index < skip,mark.length (cs.drop index) = none := fun index below =>
        quiet (index + 1) (Nat.succ_lt_succ below)
      rw [Machine.rewrite,Machine.rewrite,ih skip _ _ later]
      simp [unmarked]
    | zero =>
      rw [Machine.rewrite,Machine.rewrite]
      cases found : mark.length (c :: cs) with
      | none => simp [ih 0 _ _ (fun _ below => absurd below (Nat.not_lt_zero _))]
      | some extra =>
        obtain ⟨differs,_,inner⟩ := mark.apart c cs extra found
        cases machine.live s (c :: cs) <;> cases other.live t (c :: cs)
        · simp [ih 0 _ _ (fun _ below => absurd below (Nat.not_lt_zero _))]
        · simp [differs]
        · simp [differs.symm]
        · simp [ih extra _ _ inner]

-- Characters at which no mark begins are copied.
theorem rewrite_copies {front : List Char} (s : σ) (rest : List Char)
    (unmarked : ∀ before c after,front = before ++ c :: after → mark.length (c :: (after ++ rest)) = none) :
    machine.rewrite mark 0 s (front ++ rest) = front ++ machine.rewrite mark 0 (front.foldl machine.step s) rest := by
  induction front generalizing s with
  | nil => rfl
  | cons c front ih =>
    have here : mark.length (c :: (front ++ rest)) = none := unmarked [] c front rfl
    have later := ih (machine.step s c) fun before d after is =>
      unmarked (c :: before) d after (by rw [is,List.cons_append])
    rw [List.cons_append,Machine.rewrite,here]
    dsimp only
    rw [later,List.foldl_cons,List.cons_append]

end Marks
