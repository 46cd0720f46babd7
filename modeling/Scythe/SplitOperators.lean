import Mathlib.Logic.Relation
import Scythe.SpanEdges

-- What formatting does to operators that were taken apart, and to all that looks
-- like one.
namespace Scythe.SplitOperators
open Text

-- `str::replace`: from left to right, and on behind what was replaced.
def replaceWithin (p by' : List Char) : Nat → List Char → List Char
  | _,[] => []
  | skip + 1,_ :: cs => replaceWithin p by' skip cs
  | 0,c :: cs =>
    if p.isPrefixOf (c :: cs) then by' ++ replaceWithin p by' (p.length - 1) cs else c :: replaceWithin p by' 0 cs

def replace (cs : List Char) (p by' : String) : List Char := replaceWithin p.toList by'.toList 0 cs

def rejoinSplitOperators (sql : List Char) : List Char :=
  replace (replace (replace (replace sql "> =" ">=") "< =" "<=") "! =" "!=") "< >" "<>"

-- The two halves of an operator.
abbrev Operator := Char × Char

def operators : List Operator := [('>','='),('<','='),('!','='),('<','>')]

def Operator.split (operator : Operator) : List Char := [operator.1,' ',operator.2]
def Operator.joined (operator : Operator) : List Char := [operator.1,operator.2]

def rejoin (sql : List Char) (operator : Operator) : List Char := replaceWithin operator.split operator.joined 0 sql

-- Reading a text for one operator, from left to right.
inductive Rejoins (operator : Operator) : List Char → List Char → Prop
  | nil : Rejoins operator [] []
  | hit {rest out : List Char} (further : Rejoins operator rest out) :
      Rejoins operator (operator.split ++ rest) (operator.joined ++ out)
  | skip {c : Char} {cs out : List Char} (absent : ¬operator.split <+: c :: cs) (further : Rejoins operator cs out) :
      Rejoins operator (c :: cs) (c :: out)

theorem rejoins (operator : Operator) (sql : List Char) : Rejoins operator sql (rejoin sql operator) := by
  induction length : sql.length using Nat.strong_induction_on generalizing sql with
  | _ n ih =>
    cases sql with
    | nil => exact .nil
    | cons c cs =>
      unfold rejoin
      rw [replaceWithin]
      split
      · rename_i found
        obtain ⟨rest,whole⟩ := List.isPrefixOf_iff_prefix.mp found
        obtain ⟨rfl,rfl⟩ := List.cons.inj whole
        have skipped : replaceWithin operator.split operator.joined (operator.split.length - 1)
            ([' ',operator.2].append rest) = rejoin rest operator := rfl
        rw [skipped]
        apply Rejoins.hit
        apply ih rest.length _ rest rfl
        rw [← length]
        simp only [List.append_eq,List.length_cons,List.length_append,List.length_nil]
        omega
      · rename_i absent
        apply Rejoins.skip
        · exact fun initial => absent (List.isPrefixOf_iff_prefix.mpr initial)
        · apply ih cs.length _ cs rfl
          rw [← length,List.length_cons]
          omega

-- A space between the halves of an operator goes.
inductive Closes : List Char → List Char → Prop
  | close {operator : Operator} (member : operator ∈ operators) (front rest : List Char) :
      Closes (front ++ (operator.split ++ rest)) (front ++ (operator.joined ++ rest))

theorem Closes.behind {text out : List Char} (closes : Closes text out) (front : List Char) :
    Closes (front ++ text) (front ++ out) := by
  cases closes with
  | close member before rest =>
    have moved : ∀ inner,front ++ (before ++ inner) = (front ++ before) ++ inner :=
      fun inner => (List.append_assoc front before inner).symm
    rw [moved,moved]
    exact .close member (front ++ before) rest

abbrev Shrinks : List Char → List Char → Prop := Relation.ReflTransGen Closes

theorem Shrinks.behind {text out : List Char} (shrinks : Shrinks text out) (front : List Char) :
    Shrinks (front ++ text) (front ++ out) := by
  induction shrinks with
  | refl => exact .refl
  | tail _ last ih => exact .tail ih (last.behind front)

section
variable {operator : Operator} {text out : List Char}

theorem Rejoins.shrinks (member : operator ∈ operators) (reads : Rejoins operator text out) : Shrinks text out := by
  induction reads with
  | nil => exact .refl
  | @hit rest out _ ih =>
    have first : Closes ([] ++ (operator.split ++ rest)) ([] ++ (operator.joined ++ rest)) := .close member [] rest
    exact .head first (ih.behind operator.joined)
  | @skip c cs out _ _ ih => exact ih.behind [c]

theorem Rejoins.length (reads : Rejoins operator text out) : out.length ≤ text.length := by
  induction reads with
  | nil => exact Nat.le_refl _
  | hit _ ih =>
    simp only [Operator.split,Operator.joined,List.length_append,List.length_cons,List.length_nil]
    omega
  | skip _ _ ih =>
    rw [List.length_cons,List.length_cons]
    omega

-- A text stays as long as it is just if there is nothing to rejoin in it.
theorem Rejoins.absent (reads : Rejoins operator text out) :
    out.length = text.length ↔ ¬operator.split <:+: text := by
  induction reads with
  | nil =>
    refine ⟨fun _ inside => ?_,fun _ => rfl⟩
    have empty := List.infix_nil.mp inside
    cases empty
  | @hit rest out further _ =>
    have shorter := further.length
    constructor
    · intro same
      simp only [Operator.split,Operator.joined,List.length_append,List.length_cons,List.length_nil] at same
      omega
    · intro never
      exact absurd (List.prefix_append _ _).isInfix never
  | @skip c cs out absent further ih =>
    rw [List.length_cons,List.length_cons,Nat.add_right_cancel_iff,ih,List.infix_cons_iff,not_or]
    exact ⟨fun never => ⟨absent,never⟩,fun both => both.2⟩

theorem Rejoins.same (reads : Rejoins operator text out) (absent : ¬operator.split <:+: text) : out = text := by
  induction reads with
  | nil => rfl
  | hit => exact absurd (List.prefix_append _ _).isInfix absent
  | skip _ _ ih =>
    rw [List.infix_cons_iff,not_or] at absent
    rw [ih absent.2]

theorem Rejoins.head (reads : Rejoins operator text out) : out.head? = text.head? := by
  cases reads <;> rfl

theorem Rejoins.empty (reads : Rejoins operator text out) : out = [] ↔ text = [] := by
  rw [← List.head?_eq_none_iff,reads.head,List.head?_eq_none_iff]

theorem Rejoins.last (reads : Rejoins operator text out) : out.getLast? = text.getLast? := by
  induction reads with
  | nil => rfl
  | hit _ ih =>
    rw [List.getLast?_append,List.getLast?_append,ih]
    rfl
  | @skip c cs out _ _ ih => rw [List.getLast?_cons,List.getLast?_cons,ih]

end

-- A character that no operator is split over.
def Solid (c : Char) : Prop := c ∉ ['>','<','!','=',' ']

theorem solid_marks : ∀ c ∈ edgeMarks,Solid c := by
  have each : ∀ c ∈ edgeMarks,c ∉ ['>','<','!','=',' '] := List.all_iff_forall_prop.mp (by decide)
  exact each

theorem operators_split {operator : Operator} (member : operator ∈ operators) :
    ¬Solid operator.1 ∧ ¬Solid ' ' ∧ ¬Solid operator.2 := by
  have each : ∀ operator ∈ operators,operator.1 ∈ ['>','<','!','=',' '] ∧ operator.2 ∈ ['>','<','!','=',' '] :=
    List.all_iff_forall_prop.mp (by decide)
  obtain ⟨first,second⟩ := each operator member
  exact ⟨fun solid => solid first,by unfold Solid; decide,fun solid => solid second⟩

theorem Rejoins.append {operator : Operator} (member : operator ∈ operators) {text out text' out' : List Char}
    (reads : Rejoins operator text out) (reads' : Rejoins operator text' out') (edge : Edge Solid text text') :
    Rejoins operator (text ++ text') (out ++ out') := by
  obtain ⟨first,space,second⟩ := operators_split member
  induction reads with
  | nil => exact reads'
  | hit _ ih =>
    rw [List.append_assoc,List.append_assoc]
    exact .hit (ih edge.tail)
  | @skip c cs out absent _ ih =>
    have whole : Edge Solid ([c] ++ cs) text' := edge
    refine .skip ?_ (ih whole.tail)
    intro initial
    obtain ⟨rest,spelt⟩ := initial
    obtain ⟨rfl,others⟩ := List.cons.inj spelt
    have others : ' ' :: operator.2 :: rest = cs ++ text' := others
    cases cs with
    | nil =>
      rcases edge with last | head
      · exact first (last _ rfl)
      · rw [List.nil_append] at others
        rw [← others] at head
        exact space (head _ rfl)
    | cons d cs =>
      obtain ⟨rfl,inner⟩ := List.cons.inj others
      have inner : operator.2 :: rest = cs ++ text' := inner
      cases cs with
      | nil =>
        rcases edge with last | head
        · exact space (last _ rfl)
        · rw [List.nil_append] at inner
          rw [← inner] at head
          exact second (head _ rfl)
      | cons e cs =>
        have is := (List.cons.inj inner).1
        subst is
        exact absent ⟨cs,rfl⟩

theorem Rejoins.is {operator : Operator} {text out : List Char} (reads : Rejoins operator text out) :
    rejoin text operator = out := by
  induction reads with
  | nil => rfl
  | @hit rest out _ ih =>
    have found : operator.split.isPrefixOf (operator.split ++ rest) = true :=
      List.isPrefixOf_iff_prefix.mpr (List.prefix_append _ _)
    have starts : operator.split ++ rest = operator.1 :: ' ' :: operator.2 :: rest := rfl
    unfold rejoin at ih ⊢
    rw [starts] at found ⊢
    rw [replaceWithin,if_pos found,← ih]
    rfl
  | skip absent _ ih =>
    unfold rejoin at ih ⊢
    rw [replaceWithin,if_neg fun found => absent (List.isPrefixOf_iff_prefix.mp found),ih]

-- No operator is split over where two spans meet.
theorem rejoin_append {operator : Operator} (member : operator ∈ operators) {text rest : List Char}
    (edge : Edge Solid text rest) : rejoin (text ++ rest) operator = rejoin text operator ++ rejoin rest operator :=
  (Rejoins.append member (rejoins operator text) (rejoins operator rest) edge).is

theorem rejoin_edge (operator : Operator) {text rest : List Char} (edge : Edge Solid text rest) :
    Edge Solid (rejoin text operator) (rejoin rest operator) := by
  unfold Edge
  rw [(rejoins operator text).last,(rejoins operator rest).head]
  exact edge

def spansRejoined (spans : List SqlSpan) (operator : Operator) : List SqlSpan :=
  spans.map fun span => (span.1,rejoin span.2 operator)

theorem rejoin_spans {operator : Operator} (member : operator ∈ operators) {spans : List SqlSpan}
    (bounded : Scanner.Bounded (Edge Solid) spans) :
    rejoin (Scanner.concatenation spans) operator = Scanner.concatenation (spansRejoined spans operator) ∧
      Scanner.Bounded (Edge Solid) (spansRejoined spans operator) := by
  induction spans with
  | nil => exact ⟨rfl,trivial⟩
  | cons span spans ih =>
    obtain ⟨whole,further⟩ := ih bounded.2
    have split : Scanner.concatenation (span :: spans) = span.2 ++ Scanner.concatenation spans := rfl
    constructor
    · rw [split,rejoin_append member bounded.1,whole]
      rfl
    · have edge := rejoin_edge operator bounded.1
      rw [whole] at edge
      exact ⟨edge,further⟩

theorem rejoin_all {found : List Operator} (known : found ⊆ operators) {spans : List SqlSpan}
    (bounded : Scanner.Bounded (Edge Solid) spans) :
    found.foldl rejoin (Scanner.concatenation spans) =
      spans.flatMap fun span => found.foldl rejoin span.2 := by
  induction found generalizing spans with
  | nil => rfl
  | cons operator found ih =>
    obtain ⟨whole,further⟩ := rejoin_spans (known List.mem_cons_self) bounded
    rw [List.foldl_cons,whole,ih (fun _ member => known (List.mem_cons_of_mem _ member)) further]
    unfold spansRejoined
    rw [List.flatMap_map]
    rfl

theorem rejoin_shorter (found : List Operator) (text : List Char) : (found.foldl rejoin text).length ≤ text.length := by
  induction found generalizing text with
  | nil => exact Nat.le_refl _
  | cons operator found ih =>
    have first := (rejoins operator text).length
    have others := ih (rejoin text operator)
    rw [List.foldl_cons]
    omega

theorem rejoin_same (found : List Operator) (text : List Char) :
    (found.foldl rejoin text).length = text.length ↔ ∀ operator ∈ found,¬operator.split <:+: text := by
  induction found generalizing text with
  | nil => simp
  | cons operator found ih =>
    have first := rejoins operator text
    have others := rejoin_shorter found (rejoin text operator)
    have here := first.length
    rw [List.foldl_cons,List.forall_mem_cons]
    constructor
    · intro same
      have absent := first.absent.mp (by omega)
      rw [first.same absent] at same
      exact ⟨absent,(ih text).mp same⟩
    · intro both
      rw [first.same both.1]
      exact (ih text).mpr both.2

theorem rejoin_stays {found : List Operator} {text : List Char} (absent : ∀ operator ∈ found,¬operator.split <:+: text) :
    found.foldl rejoin text = text := by
  induction found with
  | nil => rfl
  | cons operator found ih =>
    rw [List.foldl_cons,(rejoins operator text).same (absent operator List.mem_cons_self)]
    exact ih fun other member => absent other (List.mem_cons_of_mem _ member)

theorem rejoin_shrinks {found : List Operator} (known : found ⊆ operators) (text : List Char) :
    Shrinks text (found.foldl rejoin text) := by
  induction found generalizing text with
  | nil => exact .refl
  | cons operator found ih =>
    have first := (rejoins operator text).shrinks (known List.mem_cons_self)
    exact first.trans (ih (fun _ member => known (List.mem_cons_of_mem _ member)) _)

-- What is quoted or commented out stays as it is.
def codeRejoined (span : SqlSpan) : List Char := if span.1 = .code then rejoinSplitOperators span.2 else span.2

theorem codeRejoined_length (span : SqlSpan) : (rejoinSplitOperators span.2).length ≤ (codeRejoined span).length := by
  unfold codeRejoined
  split
  · exact Nat.le_refl _
  · exact rejoin_shorter operators span.2

theorem spans_rejoined (spans : List SqlSpan) :
    (spans.flatMap fun span => rejoinSplitOperators span.2) = spans.flatMap codeRejoined ↔
      ∀ span ∈ spans,span.1 ≠ .code → ∀ operator ∈ operators,¬operator.split <:+: span.2 := by
  have lengths : ∀ spans : List SqlSpan,
      (spans.flatMap fun span => rejoinSplitOperators span.2).length ≤ (spans.flatMap codeRejoined).length := by
    intro spans
    induction spans with
    | nil => exact Nat.le_refl _
    | cons span spans ih =>
      have here := codeRejoined_length span
      rw [List.flatMap_cons,List.flatMap_cons,List.length_append,List.length_append]
      omega
  induction spans with
  | nil => simp
  | cons span spans ih =>
    rw [List.flatMap_cons,List.flatMap_cons,List.forall_mem_cons]
    have here := codeRejoined_length span
    have others := lengths spans
    constructor
    · intro same
      have length := congrArg List.length same
      rw [List.length_append,List.length_append] at length
      obtain ⟨first,rest⟩ := List.append_inj same (by omega)
      refine ⟨?_,ih.mp rest⟩
      intro quoted
      unfold codeRejoined at first
      rw [if_neg quoted] at first
      exact (rejoin_same operators span.2).mp (congrArg List.length first)
    · intro both
      rw [ih.mpr both.2]
      congr 1
      unfold codeRejoined
      split
      · rfl
      · rename_i quoted
        exact rejoin_stays (both.1 quoted)

section
variable [CaseMap]

structure Preserved (dialect : SqlDialect) (sql : List Char) : Prop where
  shrunk : Shrinks sql (rejoinSplitOperators sql)
  kept : rejoinSplitOperators sql = (tokenizeSql sql dialect).flatMap codeRejoined

end

section
local instance operatorCase : CaseMap := ascii

end

end Scythe.SplitOperators
