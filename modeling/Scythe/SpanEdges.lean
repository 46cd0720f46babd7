import Mathlib.Data.Bool.AllAny
import Scythe.LivePlaceholders

-- Where the spans of a query meet. What runs over from one into the next would run
-- over one of a few characters.
namespace Scythe
open Text

def Edge (p : Char → Prop) (text rest : List Char) : Prop :=
  (∀ c ∈ text.getLast?,p c) ∨ ∀ c ∈ rest.head?,p c

theorem Edge.tail {p : Char → Prop} {front text rest : List Char} (edge : Edge p (front ++ text) rest) :
    Edge p text rest := by
  cases text with
  | nil => exact .inl fun c is => by cases is
  | cons c text =>
    rcases edge with last | first
    · rw [List.getLast?_append,List.getLast?_cons] at last
      left
      rw [List.getLast?_cons]
      exact last
    · exact .inr first

def edgeMarks : List Char := ['\n','-','/','\'','"','$','#','[',']',Char.ofNat 0x60]

section
variable {p : Char → Prop}

theorem edge_first {c : Char} (other : p c) (cs : List Char) : ∀ before,Edge p before (c :: cs) := by
  intro before
  refine .inr ?_
  intro d head
  cases head
  exact other

-- A span that is closed, or that nothing follows.
theorem edge_closed {kind kind' : SqlSpanKind} {opening text rest : List Char} {parts : List Char × List Char}
    (spanned : spanOf kind opening parts = some (kind',text,rest)) {c : Char} (other : p c)
    (closed : parts.2 = [] ∨ parts.1.getLast? = some c) : Edge p text rest := by
  cases spanned
  rcases closed with empty | last
  · refine .inr ?_
    intro d head
    rw [empty] at head
    cases head
  · refine .inl ?_
    intro d is
    rw [List.getLast?_append,last] at is
    cases is
    exact other

theorem edge_line {kind kind' : SqlSpanKind} {opening text rest cs : List Char}
    (spanned : spanOf kind opening (Scanner.line cs) = some (kind',text,rest)) (other : p '\n') : Edge p text rest := by
  cases spanned
  refine .inr ?_
  intro c head
  rw [Scanner.line_ends cs c head]
  exact other

end

section
variable [CaseMap]

theorem dollarQuote_last {cs delimiter rest : List Char} (found : matchDollarQuoteOpen cs = some (delimiter,rest)) :
    ('$' :: delimiter).getLast? = some '$' := by
  unfold matchDollarQuoteOpen at found
  split at found
  · cases found
    rfl
  · dsimp only at found
    split at found
    · rename_i first tag _ _ _
      split at found
      · cases found
      · cases found
        have last : (('$' :: first :: tag) ++ ['$']).getLast? = some '$' := List.getLast?_concat
        exact last
    · cases found

variable {p : Char → Prop} (marks : ∀ c ∈ edgeMarks,p c)
include marks

theorem readSpan_edges {dialect : SqlDialect} {cs text rest : List Char} {kind : SqlSpanKind}
    (found : readSpan dialect cs = some (kind,text,rest)) : (∀ before,Edge p before cs) ∧ Edge p text rest := by
  have mark : ∀ {c : Char},c ∈ edgeMarks → p c := fun member => marks _ member
  unfold readSpan at found
  split at found
  · exact ⟨edge_first (mark (by decide)) _,edge_line found (mark (by decide))⟩
  · exact ⟨edge_first (mark (by decide)) _,
      edge_closed found (mark (by decide)) ((Scanner.block_ends 1 _).resolve_left (by decide))⟩
  · exact ⟨edge_first (mark (by decide)) _,edge_closed found (mark (by decide)) (Scanner.quoted_ends _ _)⟩
  · exact ⟨edge_first (mark (by decide)) _,edge_closed found (mark (by decide)) (Scanner.quoted_ends _ _)⟩
  · obtain ⟨⟨delimiter,inner⟩,opened,spanned⟩ := Option.bind_eq_some_iff.mp found
    have dollar : '$' ∈ edgeMarks := by decide
    refine ⟨edge_first (mark dollar) _,edge_closed spanned (mark dollar) ?_⟩
    rcases Scanner.through_ends ('$' :: delimiter) inner with empty | ⟨before,closed⟩
    · exact .inl empty
    · refine .inr ?_
      rw [closed,List.getLast?_append,dollarQuote_last opened]
      rfl
  · split at found
    · rename_i c cs _ _ _ _ _ tick
      have same : c = Char.ofNat 0x60 := by rw [← tick.1,Char.ofNat_toNat]
      have ticked : c ∈ edgeMarks := by
        rw [same]
        decide
      exact ⟨edge_first (mark ticked) _,edge_closed found (mark ticked) (Scanner.quoted_ends _ _)⟩
    split at found
    · rename_i hash
      rw [hash.1]
      exact ⟨edge_first (mark (by decide)) _,edge_line found (mark (by decide))⟩
    split at found
    · rename_i opening
      rw [opening.1]
      exact ⟨edge_first (mark (by decide)) _,edge_closed found (mark (by decide)) (Scanner.quoted_ends _ _)⟩
    · cases found
  · cases found

theorem tokenizeSql_edges (sql : List Char) (dialect : SqlDialect) : Scanner.Bounded (Edge p) (tokenizeSql sql dialect) := by
  apply Scanner.spans_bounded (readSpan_splits dialect)
  · intro text
    refine .inr ?_
    intro c is
    cases is
  · intro cs kind text rest found
    exact readSpan_edges marks found

end

end Scythe
