import Mathlib.Data.List.Basic
import Mathlib.Data.List.Infix
import Mathlib.Data.List.TakeWhile

-- Texts that name something, with the names of containers around it.
namespace BracketTerms

variable {α : Type}

-- What is written around the content of a container, and what does not count at its
-- two ends.
structure Brackets (α : Type) where
  opener : α
  closer : α
  blank : α → Bool
  opener_solid : blank opener = false
  closer_solid : blank closer = false

inductive Term (α : Type) where
  | leaf (name : List α)
  | wrap (container : List α) (inner : Term α)
  deriving DecidableEq,Repr

namespace Term

def name : Term α → List α
  | leaf name => name
  | wrap _ inner => inner.name

-- From the outermost one to the innermost.
def containers : Term α → List (List α)
  | leaf _ => []
  | wrap container inner => container :: inner.containers

end Term

def trim (blank : α → Bool) (cs : List α) : List α := ((cs.dropWhile blank).reverse.dropWhile blank).reverse

variable (brackets : Brackets α)

inductive Spells : List α → Term α → Prop where
  | leaf {text : List α} (plain : brackets.opener ∉ text) : Spells text (.leaf text)
  | wrap {container padded : List α} {inner : Term α} (plain : brackets.opener ∉ container)
      (within : Spells (trim brackets.blank padded) inner) :
      Spells (container ++ brackets.opener :: (padded ++ [brackets.closer])) (.wrap container inner)

def print : Term α → List α
  | .leaf name => name
  | .wrap container inner => container ++ brackets.opener :: (print inner ++ [brackets.closer])

-- Names without an opener, with nothing at their ends that does not count.
structure Printable (term : Term α) : Prop where
  name_plain : brackets.opener ∉ term.name
  name_trimmed : trim brackets.blank term.name = term.name
  plain : ∀ container ∈ term.containers,brackets.opener ∉ container
  trimmed : ∀ container ∈ term.containers,container.dropWhile brackets.blank = container

variable {brackets}

theorem trim_length (blank : α → Bool) (cs : List α) : (trim blank cs).length ≤ cs.length := by
  unfold trim
  rw [List.length_reverse]
  refine (List.dropWhile_suffix blank).length_le.trans ?_
  rw [List.length_reverse]
  exact (List.dropWhile_suffix blank).length_le

-- The first opener ends the name of the outermost container.
theorem opener_first {c : α} {before other after rest : List α} (plain : c ∉ before) (also : c ∉ other)
    (same : before ++ c :: after = other ++ c :: rest) : before = other ∧ after = rest := by
  induction before generalizing other with
  | nil =>
    cases other with
    | nil => exact ⟨rfl,(List.cons.inj same).2⟩
    | cons d other => exact absurd ((List.cons.inj same).1 ▸ List.mem_cons_self) also
  | cons b before ih =>
    cases other with
    | nil => exact absurd ((List.cons.inj same).1 ▸ List.mem_cons_self) plain
    | cons d other =>
      obtain ⟨first,rest⟩ := List.cons.inj same
      obtain ⟨names,afters⟩ := ih (fun member => plain (List.mem_cons_of_mem _ member))
        (fun member => also (List.mem_cons_of_mem _ member)) rest
      exact ⟨by rw [first,names],afters⟩

-- Texts by the container that they start with: there is none, it is not closed, or it
-- is closed and has a shorter text in it.
theorem text_induction (brackets : Brackets α) {P : List α → Prop}
    (plain : ∀ text,brackets.opener ∉ text → P text)
    (unclosed : ∀ container rest,brackets.opener ∉ container → (∀ padded,rest ≠ padded ++ [brackets.closer]) →
      P (container ++ brackets.opener :: rest))
    (wrapped : ∀ container padded,brackets.opener ∉ container → P (trim brackets.blank padded) →
      P (container ++ brackets.opener :: (padded ++ [brackets.closer]))) : ∀ text,P text := by
  intro text
  induction long : text.length using Nat.strong_induction_on generalizing text with
  | _ size ih =>
    by_cases opened : brackets.opener ∈ text
    · obtain ⟨container,rest,rfl,absent⟩ := List.eq_append_cons_of_mem opened
      by_cases closed : ∃ padded,rest = padded ++ [brackets.closer]
      · obtain ⟨padded,rfl⟩ := closed
        refine wrapped container padded absent (ih _ ?_ _ rfl)
        have cut := trim_length brackets.blank padded
        simp only [List.length_append,List.length_cons] at long
        omega
      · exact unclosed container rest absent (not_exists.mp closed)
    · exact plain text opened

theorem spells_plain {text : List α} {term : Term α} (plain : brackets.opener ∉ text) :
    Spells brackets text term ↔ term = .leaf text := by
  constructor
  · intro spells
    cases spells with
    | leaf _ => rfl
    | wrap _ _ => exact absurd (List.mem_append_right _ List.mem_cons_self) plain
  · rintro rfl
    exact .leaf plain

theorem spells_opened {container rest : List α} {term : Term α} (plain : brackets.opener ∉ container)
    (spells : Spells brackets (container ++ brackets.opener :: rest) term) :
    ∃ padded inner,rest = padded ++ [brackets.closer] ∧ term = .wrap container inner ∧
      Spells brackets (trim brackets.blank padded) inner := by
  generalize is : container ++ brackets.opener :: rest = text at spells
  cases spells with
  | leaf absent => exact absurd (is ▸ List.mem_append_right _ List.mem_cons_self) absent
  | @wrap _ padded inner also within =>
    obtain ⟨rfl,after⟩ := opener_first plain also is
    exact ⟨padded,inner,after,rfl,within⟩

theorem spells_wrapped {container padded : List α} {term : Term α} (plain : brackets.opener ∉ container) :
    Spells brackets (container ++ brackets.opener :: (padded ++ [brackets.closer])) term ↔
      ∃ inner,term = .wrap container inner ∧ Spells brackets (trim brackets.blank padded) inner := by
  constructor
  · intro spells
    obtain ⟨other,inner,same,is,within⟩ := spells_opened plain spells
    rw [← (List.append_inj' same rfl).1] at within
    exact ⟨inner,is,within⟩
  · rintro ⟨inner,rfl,within⟩
    exact .wrap plain within

-- A text spells at most one term.
theorem spells_unique {text : List α} {first second : Term α} (one : Spells brackets text first)
    (other : Spells brackets text second) : first = second := by
  induction one generalizing second with
  | leaf plain => exact ((spells_plain plain).mp other).symm
  | wrap plain _ ih =>
    obtain ⟨inner,rfl,within⟩ := (spells_wrapped plain).mp other
    rw [ih within]

-- What has nothing to cut off at its front and ends with something solid stays.
theorem trim_closed {blank : α → Bool} {front : List α} {last : α} (solid : blank last = false)
    (kept : (front ++ [last]).dropWhile blank = front ++ [last]) : trim blank (front ++ [last]) = front ++ [last] := by
  unfold trim
  rw [kept,List.reverse_append,List.reverse_singleton,List.singleton_append,List.dropWhile_cons_of_neg (by simp [solid]),
    List.reverse_cons,List.reverse_reverse]

theorem dropWhile_front {blank : α → Bool} {name rest : List α} {mark : α} (solid : blank mark = false)
    (kept : name.dropWhile blank = name) : (name ++ mark :: rest).dropWhile blank = name ++ mark :: rest := by
  cases name with
  | nil => exact List.dropWhile_cons_of_neg (by simp [solid])
  | cons c name =>
    have first : blank c = false := by
      cases is : blank c with
      | false => rfl
      | true =>
        rw [List.dropWhile_cons_of_pos is] at kept
        have shorter := (List.dropWhile_suffix (l := name) blank).length_le
        rw [kept,List.length_cons] at shorter
        omega
    exact List.dropWhile_cons_of_neg (by simp [first])

theorem print_trimmed {term : Term α} (printable : Printable brackets term) :
    trim brackets.blank (print brackets term) = print brackets term := by
  cases term with
  | leaf name => exact printable.name_trimmed
  | wrap container inner =>
    have front := @dropWhile_front _ _ _ (print brackets inner ++ [brackets.closer]) _ brackets.opener_solid
      (printable.trimmed container List.mem_cons_self)
    have parts : container ++ brackets.opener :: (print brackets inner ++ [brackets.closer]) =
        (container ++ brackets.opener :: print brackets inner) ++ [brackets.closer] := by simp
    unfold print
    rw [parts] at front ⊢
    exact trim_closed brackets.closer_solid front

-- What is printed spells the term it was printed from.
theorem print_spells {term : Term α} (printable : Printable brackets term) :
    Spells brackets (print brackets term) term := by
  induction term with
  | leaf name => exact .leaf printable.name_plain
  | wrap container inner ih =>
    have within : Printable brackets inner :=
      ⟨printable.name_plain,printable.name_trimmed,
        fun other member => printable.plain other (List.mem_cons_of_mem _ member),
        fun other member => printable.trimmed other (List.mem_cons_of_mem _ member)⟩
    refine .wrap (printable.plain container List.mem_cons_self) ?_
    rw [print_trimmed within]
    exact ih within

end BracketTerms
