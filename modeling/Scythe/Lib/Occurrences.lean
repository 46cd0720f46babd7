import Scythe.Lib.Text

-- The first and the last place in a text at which something stands.
namespace Occurrences
open Text

-- `holds before after` says that it stands between the two parts of the text.
structure FirstAt (holds : List Char → List Char → Prop) (text before after : List Char) : Prop where
  split : text = before ++ after
  here : holds before after
  first : ∀ x y : List Char,text = x ++ y → holds x y → before.length ≤ x.length

structure LastAt (holds : List Char → List Char → Prop) (text before after : List Char) : Prop where
  split : text = before ++ after
  here : holds before after
  last : ∀ x y : List Char,text = x ++ y → holds x y → x.length ≤ before.length

section
variable {holds : List Char → List Char → Prop} {text before after before' after' : List Char}

theorem split_same (left : text = before ++ after) (right : text = before' ++ after')
    (same : before.length = before'.length) : before = before' ∧ after = after' :=
  List.append_inj (left.symm.trans right) same

theorem FirstAt.unique (one : FirstAt holds text before after) (two : FirstAt holds text before' after') :
    before = before' ∧ after = after' :=
  split_same one.split two.split (Nat.le_antisymm (one.first _ _ two.split two.here) (two.first _ _ one.split one.here))

theorem LastAt.unique (one : LastAt holds text before after) (two : LastAt holds text before' after') :
    before = before' ∧ after = after' :=
  split_same one.split two.split (Nat.le_antisymm (two.last _ _ one.split one.here) (one.last _ _ two.split two.here))

-- A search that finds the first place, or says rightly that there is none, finds it
-- exactly.
theorem first_iff {found : Option (List Char × List Char)}
    (sound : ∀ before after,found = some (before,after) → FirstAt holds text before after)
    (complete : found = none → ∀ x y,text = x ++ y → ¬holds x y) :
    found = some (before,after) ↔ FirstAt holds text before after := by
  refine ⟨sound before after,fun place => ?_⟩
  cases is : found with
  | none => exact absurd place.here (complete is _ _ place.split)
  | some parts =>
    obtain ⟨rfl,rfl⟩ := (sound parts.1 parts.2 is).unique place
    rfl

theorem FirstAt.cons {c : Char} (other : ¬holds [] (c :: text))
    (later : FirstAt (fun x y => holds (c :: x) y) text before after) :
    FirstAt holds (c :: text) (c :: before) after := by
  refine ⟨by rw [later.split,List.cons_append],later.here,?_⟩
  intro x y is here
  cases x with
  | nil =>
    rw [List.nil_append] at is
    subst is
    exact absurd here other
  | cons d x =>
    rw [List.cons_append,List.cons.injEq] at is
    obtain ⟨rfl,rest⟩ := is
    exact Nat.succ_le_succ (later.first x y rest here)

end

-- A pattern stands where the rest of the text begins with it.
def Begins (p : List Char) (_ after : List Char) : Prop := p <+: after

theorem splitFirst_none {p text : List Char} (none' : splitFirst p text = none) :
    ∀ x y,text = x ++ y → ¬p <+: y := by
  intro x y is ⟨rest,begins⟩
  have found : (splitFirst p text).isSome := splitFirst_isSome.mpr ⟨x,rest,by rw [is,← begins,List.append_assoc]⟩
  rw [none'] at found
  cases found

theorem splitFirst_first {p text before after : List Char} (found : splitFirst p text = some (before,after)) :
    FirstAt (Begins p) text before (p ++ after) := by
  induction text generalizing before with
  | nil =>
    unfold splitFirst at found
    split at found
    · rename_i empty
      cases found
      exact ⟨by simp [empty],⟨[],by simp [empty]⟩,fun _ _ _ _ => Nat.zero_le _⟩
    · cases found
  | cons c text ih =>
    unfold splitFirst at found
    cases matched : p.isPrefixOf? (c :: text) with
    | some rest =>
      rw [matched] at found
      cases found
      have is := List.isPrefixOf?_eq_some_iff_append_eq.mp matched
      exact ⟨is.symm,⟨_,rfl⟩,fun _ _ _ _ => Nat.zero_le _⟩
    | none =>
      rw [matched] at found
      obtain ⟨parts,later,same⟩ := Option.map_eq_some_iff.mp found
      cases same
      refine FirstAt.cons ?_ (ih later)
      intro begins
      obtain ⟨rest,begins⟩ := begins
      rw [List.isPrefixOf?_eq_some_iff_append_eq.mpr begins] at matched
      cases matched

theorem splitFirst_iff {p text before after : List Char} :
    splitFirst p text = some (before,after) ↔ FirstAt (Begins p) text before (p ++ after) := by
  refine ⟨splitFirst_first,fun place => ?_⟩
  cases is : splitFirst p text with
  | none => exact absurd place.here (splitFirst_none is _ _ place.split)
  | some parts =>
    obtain ⟨rfl,same⟩ := (splitFirst_first is).unique place
    rw [← List.append_cancel_left same]

-- The last occurrence is the first one from the end.
theorem last_of_first {p text before after : List Char}
    (first : FirstAt (Begins p.reverse) text.reverse after.reverse (p.reverse ++ before.reverse)) :
    LastAt (Begins p) text before (p ++ after) := by
  have is : text = before ++ (p ++ after) := by
    have reversed := congrArg List.reverse first.split
    simpa using reversed
  refine ⟨is,⟨after,rfl⟩,?_⟩
  intro x y split ⟨rest,begins⟩
  have turned : text.reverse = rest.reverse ++ (p.reverse ++ x.reverse) := by
    rw [split,← begins]
    simp
  have least := first.first _ _ turned ⟨_,rfl⟩
  have lengths := congrArg List.length (is.symm.trans split)
  rw [← begins] at lengths
  simp only [List.length_reverse,List.length_append] at least lengths
  omega

theorem first_of_last {p text before after : List Char} (last : LastAt (Begins p) text before (p ++ after)) :
    FirstAt (Begins p.reverse) text.reverse after.reverse (p.reverse ++ before.reverse) := by
  refine ⟨by rw [last.split]; simp,⟨_,rfl⟩,?_⟩
  intro x y split ⟨rest,begins⟩
  have turned : text = rest.reverse ++ (p ++ x.reverse) := by
    have reversed := congrArg List.reverse split
    rw [← begins] at reversed
    simpa using reversed
  have most := last.last _ _ turned ⟨_,rfl⟩
  have lengths := congrArg List.length (last.split.symm.trans turned)
  simp only [List.length_reverse,List.length_append] at most lengths ⊢
  omega

-- A word with no character of a word next to it.
def BeginsWord (wordChar : Char → Bool) (word before after : List Char) : Prop :=
  ∃ rest,word ++ rest = after ∧ (before.getLast?.map wordChar).getD false = false ∧
    (rest.head?.map wordChar).getD false = false

section
variable (wordChar : Char → Bool) (word : List Char)

-- Whether the word stands in front of a text, behind a character of a word or not.
def wordHere (previous : Bool) (text : List Char) : Bool :=
  match word.isPrefixOf? text with
  | some rest => !previous && !(rest.head?.map wordChar).getD false
  | none => false

-- The text before the first place at which the word stands, and from it on.
def firstWord (previous : Bool) : List Char → Option (List Char × List Char)
  | [] => none
  | c :: cs =>
    if wordHere wordChar word previous (c :: cs) then some ([],c :: cs)
    else (firstWord (wordChar c) cs).map fun parts => (c :: parts.1,parts.2)

variable {wordChar word}

theorem wordHere_iff {before text : List Char} :
    wordHere wordChar word ((before.getLast?.map wordChar).getD false) text = true ↔
      BeginsWord wordChar word before text := by
  unfold wordHere BeginsWord
  cases matched : word.isPrefixOf? text with
  | none =>
    simp only [Bool.false_eq_true,false_iff,not_exists,not_and]
    intro rest begins
    rw [List.isPrefixOf?_eq_some_iff_append_eq.mpr begins] at matched
    cases matched
  | some after =>
    have begins := List.isPrefixOf?_eq_some_iff_append_eq.mp matched
    simp only [Bool.and_eq_true,Bool.not_eq_true']
    constructor
    · intro ⟨apart,ends⟩
      exact ⟨after,begins,apart,ends⟩
    · intro ⟨rest,same,apart,ends⟩
      cases List.append_cancel_left (same.trans begins.symm)
      exact ⟨apart,ends⟩

theorem firstWord_none {before text : List Char} (some' : word ≠ [])
    (absent : firstWord wordChar word ((before.getLast?.map wordChar).getD false) text = none) :
    ∀ x y,text = x ++ y → ¬BeginsWord wordChar word (before ++ x) y := by
  induction text generalizing before with
  | nil =>
    intro x y is ⟨rest,begins,_⟩
    obtain ⟨-,rfl⟩ := List.append_eq_nil_iff.mp is.symm
    exact some' (List.append_eq_nil_iff.mp begins).1
  | cons c text ih =>
    rw [firstWord] at absent
    split at absent
    · cases absent
    · rename_i other
      intro x y is here
      cases x with
      | nil =>
        rw [List.nil_append] at is
        rw [List.append_nil] at here
        exact other (wordHere_iff.mpr (is ▸ here))
      | cons d x =>
        rw [List.cons_append,List.cons.injEq] at is
        obtain ⟨rfl,later⟩ := is
        have next : firstWord wordChar word (((before ++ [c]).getLast?.map wordChar).getD false) text = none := by
          simpa using absent
        refine ih next x y later ?_
        simpa using here

theorem firstWord_first {before text front rest : List Char}
    (found : firstWord wordChar word ((before.getLast?.map wordChar).getD false) text = some (front,rest)) :
    FirstAt (fun x y => BeginsWord wordChar word (before ++ x) y) text front rest := by
  induction text generalizing before front with
  | nil => cases found
  | cons c text ih =>
    rw [firstWord] at found
    split at found
    · rename_i here
      cases found
      refine ⟨rfl,?_,fun _ _ _ _ => Nat.zero_le _⟩
      rw [List.append_nil]
      exact wordHere_iff.mp here
    · rename_i other
      obtain ⟨parts,later,same⟩ := Option.map_eq_some_iff.mp found
      cases same
      have next : firstWord wordChar word (((before ++ [c]).getLast?.map wordChar).getD false) text = some parts := by
        simpa using later
      refine FirstAt.cons ?_ (by simpa using ih next)
      intro here
      rw [List.append_nil] at here
      exact other (wordHere_iff.mpr here)

theorem firstWord_iff {text before after : List Char} (some' : word ≠ []) :
    firstWord wordChar word false text = some (before,after) ↔ FirstAt (BeginsWord wordChar word) text before after :=
  first_iff (fun _ _ found => @firstWord_first _ _ [] _ _ _ found) (@firstWord_none _ _ [] _ some')

end

end Occurrences
