import Scythe.Fixtures
import Scythe.OptionalMeaning

-- What the filter of an aggregate says about the row of NULLs that an outer join
-- makes up.
namespace Scythe

def truthAnd : Truth → Truth → Truth
  | some false,_ => some false
  | _,some false => some false
  | some true,some true => some true
  | _,_ => none

def truthNot : Truth → Truth := Option.map (!·)

-- A joined row, by the alias of a relation and the name of one of its columns.
abbrev AliasedRow (V : Type) := String → String → Option V

-- What the database makes of the expressions that are neither references nor
-- connectives. A record with a NULL in it is a value that is not present.
structure PredicateMeaning (V : Type) where
  value : Expr → AliasedRow V → Option V
  present : V → Bool
  holds : Expr → AliasedRow V → Truth

section
variable [Text.CaseMap] {V : Type} (meaning : PredicateMeaning V) (row : AliasedRow V)

-- The last two parts of a name are a relation and its column.
def PredicateMeaning.valueOf : Expr → Option V
  | .compoundIdentifier parts =>
    match parts.reverse with
    | column :: qualifier :: _ => row (identToLower qualifier) (identToLower column)
    | _ => meaning.value (.compoundIdentifier parts) row
  | .nested inner => PredicateMeaning.valueOf inner
  | e => meaning.value e row

def PredicateMeaning.truth : Expr → Truth
  | .isNotNull inner => some ((meaning.valueOf row inner).any meaning.present)
  | .nested inner => PredicateMeaning.truth inner
  | .binaryOp left .and right => truthAnd (PredicateMeaning.truth left) (PredicateMeaning.truth right)
  | .binaryOp left .or right => truthOr (PredicateMeaning.truth left) (PredicateMeaning.truth right)
  | .unaryOp .not inner => truthNot (PredicateMeaning.truth inner)
  | e => meaning.holds e row

-- The rows that an aggregate takes in.
def PredicateMeaning.aggregated (filter : Option Expr) (rows : List (AliasedRow V)) : List (AliasedRow V) :=
  rows.filter fun row => filter.all fun predicate => meaning.truth row predicate = some true

-- Every column of the alias is NULL, as in a row that the join did not match.
def NullRelation (aliasName : String) : Prop := ∀ column,row aliasName column = none

variable {meaning row}

omit [Text.CaseMap] in
theorem truthAnd_true {left right : Truth} (is : truthAnd left right = some true) :
    left = some true ∧ right = some true := by
  unfold truthAnd at is
  split at is
  · cases is
  · cases is
  · exact ⟨rfl,rfl⟩
  · cases is

theorem column_of_null_relation {aliasName : String} {e : Expr} (column : exprIsColumnOfRelation e aliasName)
    (missing : NullRelation row aliasName) : meaning.valueOf row e = none := by
  unfold exprIsColumnOfRelation at column
  split at column
  · rename_i parts
    split at column
    · rename_i last qualifier others is
      have value : meaning.valueOf row (.compoundIdentifier parts) = row (identToLower qualifier) (identToLower last) := by
        unfold PredicateMeaning.valueOf
        rw [is]
      rw [value,of_decide_eq_true column]
      exact missing _
    · cases column
  · cases column

theorem excluded_not_true {aliasName : String} {filter : Expr}
    (excludes : filterExcludesNullRelation aliasName filter = true) (missing : NullRelation row aliasName) :
    meaning.truth row filter ≠ some true := by
  fun_induction filterExcludesNullRelation aliasName filter with
  | case1 inner =>
    rw [PredicateMeaning.truth,column_of_null_relation excludes missing]
    nofun
  | case2 inner ih =>
    rw [PredicateMeaning.truth]
    exact ih excludes
  | case3 left right ihLeft ihRight =>
    rw [PredicateMeaning.truth]
    intro holds
    obtain ⟨onLeft,onRight⟩ := truthAnd_true holds
    rcases Bool.or_eq_true_iff.mp excludes with first | second
    · exact ihLeft first onLeft
    · exact ihRight second onRight
  | case4 => cases excludes

end

section Example
local instance filterCase : Text.CaseMap := Text.ascii

-- o.id IS NOT NULL AND o.total
def orderFilter : Expr := .binaryOp (.isNotNull (Fixtures.qualified "o" "id")) .and (Fixtures.qualified "O" "total")

-- A database in which whatever may be true is.
def everythingHolds : PredicateMeaning Nat := ⟨fun _ _ => some 0,fun _ => true,fun _ _ => some true⟩

end Example

end Scythe
