import Mathlib.Data.List.Basic

-- Joined rows and the sources of them that an outer join can leave without a value.
namespace Joins

-- A kind of join: whether it has a condition, and the rows of which side it keeps where
-- the condition fails for all of the other side's.
structure JoinKind where
  conditioned : Bool
  keepsLeft : Bool
  keepsRight : Bool
  free : conditioned = false → keepsLeft = false ∧ keepsRight = false

-- A tree of joins over sources and items that have rows but are no source.
inductive JoinTree (κ ι : Type) where
  | unit
  | blank (name : ι)
  | source (name : ι)
  | join (left : JoinTree κ ι) (kind : κ) (right : JoinTree κ ι)

-- A value for each source, or none where the source is extended by nulls.
abbrev Row (β : Type) := List (Option β)

def nulls {β : Type} (width : Nat) : Row β := List.replicate width none

def JoinTree.width {κ ι : Type} : JoinTree κ ι → Nat
  | .unit | .blank _ => 0
  | .source _ => 1
  | .join left _ right => left.width + right.width

section
variable {β : Type}

def pairs (on : Row β → Row β → Bool) (left right : List (Row β)) : List (Row β) :=
  left.flatMap fun l => (right.filter (on l)).map fun r => l ++ r

def joined (kind : JoinKind) (on : Row β → Row β → Bool) (leftWidth rightWidth : Nat) (left right : List (Row β)) :
    List (Row β) :=
  pairs on left right ++
    (if kind.keepsLeft then (left.filter fun l => !right.any (on l)).map fun l => l ++ nulls rightWidth else []) ++
    (if kind.keepsRight then (right.filter fun r => !left.any fun l => on l r).map fun r => nulls leftWidth ++ r else [])

theorem mem_joined {kind : JoinKind} {on : Row β → Row β → Bool} {leftWidth rightWidth : Nat} {left right : List (Row β)}
    {row : Row β} : row ∈ joined kind on leftWidth rightWidth left right ↔
      (∃ l ∈ left,∃ r ∈ right,on l r = true ∧ row = l ++ r) ∨
      (kind.keepsLeft = true ∧ ∃ l ∈ left,(∀ r ∈ right,on l r = false) ∧ row = l ++ nulls rightWidth) ∨
      (kind.keepsRight = true ∧ ∃ r ∈ right,(∀ l ∈ left,on l r = false) ∧ row = nulls leftWidth ++ r) := by
  unfold joined pairs
  rw [List.mem_append,List.mem_append,or_assoc]
  refine or_congr ?_ (or_congr ?_ ?_)
  · simp only [List.mem_flatMap,List.mem_map,List.mem_filter]
    constructor
    · rintro ⟨l,inLeft,r,⟨inRight,holds⟩,rfl⟩
      exact ⟨l,inLeft,r,inRight,holds,rfl⟩
    · rintro ⟨l,inLeft,r,inRight,holds,rfl⟩
      exact ⟨l,inLeft,r,⟨inRight,holds⟩,rfl⟩
  · cases kind.keepsLeft with
    | false => simp
    | true =>
      simp only [if_true,List.mem_map,List.mem_filter,Bool.not_eq_true',List.any_eq_false,true_and]
      constructor
      · rintro ⟨l,⟨inLeft,none⟩,rfl⟩
        exact ⟨l,inLeft,fun r inRight => Bool.eq_false_iff.mpr (none r inRight),rfl⟩
      · rintro ⟨l,inLeft,none,rfl⟩
        exact ⟨l,⟨inLeft,fun r inRight => Bool.eq_false_iff.mp (none r inRight)⟩,rfl⟩
  · cases kind.keepsRight with
    | false => simp
    | true =>
      simp only [if_true,List.mem_map,List.mem_filter,Bool.not_eq_true',List.any_eq_false,true_and]
      constructor
      · rintro ⟨r,⟨inRight,none⟩,rfl⟩
        exact ⟨r,inRight,fun l inLeft => Bool.eq_false_iff.mpr (none l inLeft),rfl⟩
      · rintro ⟨r,inRight,none,rfl⟩
        exact ⟨r,⟨inRight,fun l inLeft => Bool.eq_false_iff.mp (none l inLeft)⟩,rfl⟩

end

section
variable {κ ι : Type} (kind : κ → JoinKind)

-- The rows that a tree can have: each join with some outcome of its condition on every
-- pair of rows.
def Rows {β : Type} (contents : ι → List β) : JoinTree κ ι → List (Row β) → Prop
  | .unit,rows => rows = [[]]
  | .blank name,rows => rows = (contents name).map fun _ => []
  | .source name,rows => rows = (contents name).map fun value => [some value]
  | .join left k right,rows => ∃ ls rs on,Rows contents left ls ∧ Rows contents right rs ∧
      ((kind k).conditioned = false → ∀ l r,on l r = true) ∧ rows = joined (kind k) on left.width right.width ls rs

-- Some contents and outcomes leave a source without a value in a row.
def Extended (tree : JoinTree κ ι) (place : Nat) : Prop := ∃ (β : Type) (contents : ι → List β) (rows : List (Row β)),
  Rows kind contents tree rows ∧ ∃ row ∈ rows,row[place]? = some none

-- The sources that a join leaves without a value, of those of its operands.
def nullable : JoinTree κ ι → List Bool
  | .unit | .blank _ => []
  | .source _ => [false]
  | .join left k right =>
    (if (kind k).keepsRight then List.replicate left.width true else nullable left) ++
      (if (kind k).keepsLeft then List.replicate right.width true else nullable right)

theorem nullable_width (tree : JoinTree κ ι) : (nullable kind tree).length = tree.width := by
  induction tree with
  | unit => rfl
  | blank name => rfl
  | source name => rfl
  | join left k right leftWidth rightWidth =>
    have operand : ∀ (keeps : Bool) (tree : JoinTree κ ι),(nullable kind tree).length = tree.width →
        (if keeps then List.replicate tree.width true else nullable kind tree).length = tree.width := by
      intro keeps tree same
      split
      · exact List.length_replicate
      · exact same
    simp only [nullable,JoinTree.width,List.length_append,operand _ left leftWidth,operand _ right rightWidth]

theorem operand_width (keeps : Bool) (tree : JoinTree κ ι) :
    (if keeps then List.replicate tree.width true else nullable kind tree).length = tree.width := by
  split
  · exact List.length_replicate
  · exact nullable_width kind tree

section
variable {kind} {β : Type} {contents : ι → List β}

theorem rows_width {tree : JoinTree κ ι} {rows : List (Row β)} (evaluated : Rows kind contents tree rows) :
    ∀ row ∈ rows,row.length = tree.width := by
  induction tree generalizing rows with
  | unit =>
    obtain rfl := evaluated
    simp [JoinTree.width]
  | blank name =>
    obtain rfl := evaluated
    simp [JoinTree.width]
  | source name =>
    obtain rfl := evaluated
    simp [JoinTree.width]
  | join left k right ihLeft ihRight =>
    obtain ⟨ls,rs,on,onLeft,onRight,_,rfl⟩ := evaluated
    intro row member
    rcases mem_joined.mp member with ⟨l,inLeft,r,inRight,_,rfl⟩ | ⟨_,l,inLeft,_,rfl⟩ | ⟨_,r,inRight,_,rfl⟩
    · rw [List.length_append,ihLeft onLeft l inLeft,ihRight onRight r inRight]
      rfl
    · rw [List.length_append,ihLeft onLeft l inLeft,nulls,List.length_replicate]
      rfl
    · rw [List.length_append,ihRight onRight r inRight,nulls,List.length_replicate]
      rfl

-- A null in a row is where the tree says.
theorem rows_nullable {tree : JoinTree κ ι} {rows : List (Row β)} (evaluated : Rows kind contents tree rows) :
    ∀ row ∈ rows,∀ place : Nat,row[place]? = some none → (nullable kind tree)[place]? = some true := by
  induction tree generalizing rows with
  | unit =>
    obtain rfl := evaluated
    simp
  | blank name =>
    obtain rfl := evaluated
    simp
  | source name =>
    obtain rfl := evaluated
    intro row member place missing
    obtain ⟨value,_,rfl⟩ := List.mem_map.mp member
    cases place with
    | zero => cases missing
    | succ place => cases missing
  | join left k right ihLeft ihRight =>
    obtain ⟨ls,rs,on,onLeft,onRight,_,rfl⟩ := evaluated
    intro row member place missing
    have widths := operand_width kind (kind k).keepsRight left
    -- where the null is in a row of the left operand, and in one of the right
    have inLeftRow : ∀ l ∈ ls,l[place]? = some none → place < left.width ∧
        (if (kind k).keepsRight then List.replicate left.width true else nullable kind left)[place]? = some true := by
      intro l inside is
      have short := (List.getElem?_eq_some_iff.mp is).1
      rw [rows_width onLeft l inside] at short
      refine ⟨short,?_⟩
      split
      · exact List.getElem?_replicate_of_lt short
      · exact ihLeft onLeft l inside place is
    have inRightRow : ∀ r ∈ rs,∀ behind : Nat,r[behind]? = some none →
        (if (kind k).keepsLeft then List.replicate right.width true else nullable kind right)[behind]? = some true := by
      intro r inside behind is
      split
      · have short := (List.getElem?_eq_some_iff.mp is).1
        rw [rows_width onRight r inside] at short
        exact List.getElem?_replicate_of_lt short
      · exact ihRight onRight r inside behind is
    unfold nullable
    by_cases front : place < left.width
    · rw [List.getElem?_append_left (widths.symm ▸ front)]
      rcases mem_joined.mp member with ⟨l,inLeft,r,_,_,rfl⟩ | ⟨_,l,inLeft,_,rfl⟩ | ⟨keeps,r,_,_,rfl⟩
      · rw [List.getElem?_append_left (rows_width onLeft l inLeft ▸ front)] at missing
        exact (inLeftRow l inLeft missing).2
      · rw [List.getElem?_append_left (rows_width onLeft l inLeft ▸ front)] at missing
        exact (inLeftRow l inLeft missing).2
      · rw [if_pos keeps]
        exact List.getElem?_replicate_of_lt front
    · have beyond : left.width ≤ place := Nat.not_lt.mp front
      rw [List.getElem?_append_right (widths.symm ▸ beyond),widths]
      rcases mem_joined.mp member with ⟨l,inLeft,r,inRight,_,rfl⟩ | ⟨keeps,l,inLeft,_,rfl⟩ | ⟨_,r,inRight,_,rfl⟩
      · rw [List.getElem?_append_right (rows_width onLeft l inLeft ▸ beyond),rows_width onLeft l inLeft] at missing
        exact inRightRow r inRight _ missing
      · rw [List.getElem?_append_right (rows_width onLeft l inLeft ▸ beyond),rows_width onLeft l inLeft] at missing
        have short := (List.getElem?_eq_some_iff.mp missing).1
        rw [nulls,List.length_replicate] at short
        rw [if_pos keeps]
        exact List.getElem?_replicate_of_lt short
      · have size : (nulls left.width : Row β).length = left.width := List.length_replicate
        rw [List.getElem?_append_right (size.symm ▸ beyond),size] at missing
        exact inRightRow r inRight _ missing

end

-- One row in every source.
def single (_ : ι) : List Unit := [()]

variable {kind}

theorem rows_full (tree : JoinTree κ ι) :
    ∃ rows,Rows kind single tree rows ∧ List.replicate tree.width (some ()) ∈ rows := by
  induction tree with
  | unit => exact ⟨_,rfl,List.mem_singleton_self _⟩
  | blank name => exact ⟨_,rfl,List.mem_singleton_self _⟩
  | source name => exact ⟨_,rfl,List.mem_singleton_self _⟩
  | join left k right ihLeft ihRight =>
    obtain ⟨ls,onLeft,inLeft⟩ := ihLeft
    obtain ⟨rs,onRight,inRight⟩ := ihRight
    refine ⟨_,⟨ls,rs,fun _ _ => true,onLeft,onRight,fun _ _ _ => rfl,rfl⟩,?_⟩
    exact mem_joined.mpr (.inl ⟨_,inLeft,_,inRight,rfl,List.replicate_add _ _ _⟩)

theorem nullable_rows (tree : JoinTree κ ι) {place : Nat} (null : (nullable kind tree)[place]? = some true) :
    ∃ rows,Rows kind single tree rows ∧ ∃ row ∈ rows,row[place]? = some none := by
  induction tree generalizing place with
  | unit => cases null
  | blank name => cases null
  | source name =>
    cases place with
    | zero => cases null
    | succ place => cases null
  | join left k right ihLeft ihRight =>
    obtain ⟨fullLeft,evalLeft,hasLeft⟩ := @rows_full _ _ kind left
    obtain ⟨fullRight,evalRight,hasRight⟩ := @rows_full _ _ kind right
    have widths := operand_width kind (kind k).keepsRight left
    unfold nullable at null
    by_cases front : place < left.width
    · rw [List.getElem?_append_left (widths.symm ▸ front)] at null
      split at null
      · rename_i keeps
        refine ⟨_,⟨fullLeft,fullRight,fun _ _ => false,evalLeft,evalRight,fun plain => ?_,rfl⟩,_,
          mem_joined.mpr (.inr (.inr ⟨keeps,_,hasRight,fun _ _ => rfl,rfl⟩)),?_⟩
        · rw [((kind k).free plain).2] at keeps
          cases keeps
        · rw [List.getElem?_append_left (List.length_replicate.symm ▸ front)]
          exact List.getElem?_replicate_of_lt front
      · obtain ⟨ls,onLeft,l,inLeft,missing⟩ := ihLeft null
        refine ⟨_,⟨ls,fullRight,fun _ _ => true,onLeft,evalRight,fun _ _ _ => rfl,rfl⟩,_,
          mem_joined.mpr (.inl ⟨l,inLeft,_,hasRight,rfl,rfl⟩),?_⟩
        rw [List.getElem?_append_left (rows_width onLeft l inLeft ▸ front)]
        exact missing
    · have beyond : left.width ≤ place := Nat.not_lt.mp front
      rw [List.getElem?_append_right (widths.symm ▸ beyond),widths] at null
      have fullWidth : (List.replicate left.width (some ()) : Row Unit).length = left.width := List.length_replicate
      split at null
      · rename_i keeps
        refine ⟨_,⟨fullLeft,fullRight,fun _ _ => false,evalLeft,evalRight,fun plain => ?_,rfl⟩,_,
          mem_joined.mpr (.inr (.inl ⟨keeps,_,hasLeft,fun _ _ => rfl,rfl⟩)),?_⟩
        · rw [((kind k).free plain).1] at keeps
          cases keeps
        · have short := (List.getElem?_eq_some_iff.mp null).1
          rw [List.length_replicate] at short
          rw [List.getElem?_append_right (fullWidth.symm ▸ beyond),fullWidth]
          exact List.getElem?_replicate_of_lt short
      · obtain ⟨rs,onRight,r,inRight,missing⟩ := ihRight null
        refine ⟨_,⟨fullLeft,rs,fun _ _ => true,evalLeft,onRight,fun _ _ _ => rfl,rfl⟩,_,
          mem_joined.mpr (.inl ⟨_,hasLeft,r,inRight,rfl,rfl⟩),?_⟩
        rw [List.getElem?_append_right (fullWidth.symm ▸ beyond),fullWidth]
        exact missing

theorem extended_iff {tree : JoinTree κ ι} {place : Nat} :
    Extended kind tree place ↔ (nullable kind tree)[place]? = some true := by
  constructor
  · rintro ⟨β,contents,rows,evaluated,row,member,missing⟩
    exact rows_nullable evaluated row member place missing
  · intro null
    obtain ⟨rows,evaluated,row,member,missing⟩ := nullable_rows tree null
    exact ⟨Unit,single,rows,evaluated,row,member,missing⟩

end

end Joins
