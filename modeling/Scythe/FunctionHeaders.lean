import Scythe.IdentityClauses

-- Which clause RETURNS TABLE of a schema is rewritten: the first such words that the
-- mask shows, with the first parentheses of the text and the next ones behind them.
-- In the language, the clause stands behind the arguments of a function.
namespace Scythe
open Text Lexis

-- The first index of a text at which something holds.
structure FirstPlace (sql : List Char) (holds : Nat → Bool) (index : Nat) : Prop where
  inside : index < sql.length
  here : holds index = true
  first : ∀ earlier < index,holds earlier = false

theorem firstPlace_iff {sql : List Char} {holds : Nat → Bool} {index : Nat} :
    (List.range sql.length).find? holds = some index ↔ FirstPlace sql holds index := by
  rw [List.find?_range_eq_some,List.mem_range]
  constructor
  · intro ⟨here,inside,first⟩
    exact ⟨inside,here,fun earlier below => by simpa using first earlier below⟩
  · intro place
    exact ⟨place.here,place.inside,fun earlier below => by simpa using place.first earlier below⟩

def showsMark (sql : List Char) (outside : List Bool) (from' : Nat) (target : Char) (index : Nat) : Bool :=
  decide (from' ≤ index) && decide (sql[index]? = some target) && outsideAt outside index

def showsReturnsTable (sql : List Char) (outside : List Bool) (index : Nat) : Bool :=
  outsideAt outside index && keywordAt sql index "RETURNS" &&
    keywordsFollow sql outside (index + "RETURNS".length) ["TABLE"]

-- By the mask: the first words RETURNS TABLE, the first parenthesis behind them, and
-- the first one of the text, which closes before the words.
structure ClauseShown (sql : List Char) (outside : List Bool) (marker : Nat) (clause : ReturnsTable) : Prop where
  returns : FirstPlace sql (showsReturnsTable sql outside) marker
  tableOpen : FirstPlace sql (showsMark sql outside marker '(') clause.tableOpen
  tableClose : matchingParenthesis sql outside clause.tableOpen = some clause.tableClose
  functionOpen : FirstPlace sql (showsMark sql outside 0 '(') clause.functionOpen
  functionClose : matchingParenthesis sql outside clause.functionOpen = some clause.functionClose
  before : clause.functionOpen < marker
  apart : clause.functionClose ≤ marker

theorem findReturnsTable_iff {sql : List Char} {outside : List Bool} {clause : ReturnsTable} :
    findReturnsTable sql outside = some clause ↔ ∃ marker,ClauseShown sql outside marker clause := by
  have words (marker : Nat) : findKeywordSequence sql outside "RETURNS" ["TABLE"] = some marker ↔
      FirstPlace sql (showsReturnsTable sql outside) marker := firstPlace_iff
  have mark (from' index : Nat) : findCharOutside sql outside '(' from' = some index ↔
      FirstPlace sql (showsMark sql outside from' '(') index := firstPlace_iff
  simp only [findReturnsTable,Option.bind_eq_bind,Option.bind_eq_some_iff,Option.filter_eq_some_iff,words,mark,
    decide_eq_true_eq]
  constructor
  · intro ⟨marker,returns,tableOpen,opens,tableClose,closes,functionOpen,⟨first,before⟩,functionClose,last,apart⟩
    split at apart
    · cases apart
    · rename_i within
      cases apart
      exact ⟨marker,returns,opens,closes,first,last,before,Nat.le_of_not_lt within⟩
  · intro ⟨marker,shown⟩
    refine ⟨marker,shown.returns,clause.tableOpen,shown.tableOpen,clause.tableClose,shown.tableClose,
      clause.functionOpen,⟨shown.functionOpen,shown.before⟩,clause.functionClose,shown.functionClose,?_⟩
    rw [if_neg (Nat.not_lt.mpr shown.apart)]

-- Which characters of a text stand in code.
def codeMask (rules : Rules) : Region → List Char → List Bool
  | _,[] => []
  | region,c :: cs => region.isCode :: codeMask rules (step rules region c) cs

section
variable (rules : Rules)

-- In the language: the words stand right behind the arguments of a function that is
-- created, with white space and comments between them.
structure HeaderClause (sql : List Char) (clause : ReturnsTable) : Prop where
  create : leadingWords rules 2 (withoutComments rules (.code .none) sql) = ["CREATE","FUNCTION"].map String.toList ∨
    leadingWords rules 4 (withoutComments rules (.code .none) sql) =
      ["CREATE","OR","REPLACE","FUNCTION"].map String.toList
  functionOpen : FirstPlace sql (showsMark sql (codeMask rules (.code .none) sql) 0 '(') clause.functionOpen
  functionClose : matchingParenthesis sql (codeMask rules (.code .none) sql) clause.functionOpen =
    some clause.functionClose
  words : ∃ gap returns between table gap' rest : List Char,
    (withoutComments rules (.code .none) sql).drop (clause.functionClose + 1) =
      gap ++ (returns ++ (between ++ (table ++ (gap' ++ '(' :: rest)))) ∧
    AllSpaces gap ∧ returns.map asciiUpper = "RETURNS".toList ∧ AllSpaces between ∧ between ≠ [] ∧
    table.map asciiUpper = "TABLE".toList ∧ AllSpaces gap' ∧
    clause.tableOpen = clause.functionClose + 1 +
      (gap.length + returns.length + between.length + table.length + gap'.length)
  tableClose : matchingParenthesis sql (codeMask rules (.code .none) sql) clause.tableOpen = some clause.tableClose

-- Exactly the clauses of the language are rewritten, and a text without one is not.
structure ReturnsTableExact (sql : List Char) : Prop where
  found : ∀ clause,HeaderClause rules sql clause ↔ findReturnsTable sql (sqlOutsideMask sql) = some clause
  rewritten : ∀ clause,HeaderClause rules sql clause → rewriteReturnsTable sql = returnsTableRewritten sql clause
  unchanged : (∀ clause,¬HeaderClause rules sql clause) → rewriteReturnsTable sql = sql

theorem returnsTable_exact_iff (sql : List Char) :
    ReturnsTableExact rules sql ↔
      ∀ clause,(∃ marker,ClauseShown sql (sqlOutsideMask sql) marker clause) ↔ HeaderClause rules sql clause := by
  constructor
  · intro exact' clause
    rw [← findReturnsTable_iff]
    exact (exact'.found clause).symm
  · intro same
    have found (clause : ReturnsTable) :
        HeaderClause rules sql clause ↔ findReturnsTable sql (sqlOutsideMask sql) = some clause := by
      rw [findReturnsTable_iff]
      exact (same clause).symm
    refine ⟨found,?_,?_⟩
    · intro clause header
      rw [rewriteReturnsTable,(found clause).mp header]
    · intro nothing
      cases is : findReturnsTable sql (sqlOutsideMask sql) with
      | none => rw [rewriteReturnsTable,is]
      | some clause => exact absurd ((found clause).mpr is) (nothing clause)

end

section
local instance headerCase : CaseMap := ascii

-- A clause in a dollar quote goes too.
theorem clause_in_a_body : ¬IdentityExact postgresLexis "$$IDENTITY(1,1)$$".toList := by
  intro exact'
  have token := (exact'.removed "$$".toList "IDENTITY(1,1)".toList "$$".toList rfl).mp
    ⟨[⟨['$'],['$']⟩,⟨['$'],['$']⟩],[⟨['$'],['$']⟩,⟨['$'],['$']⟩],by decide +kernel,rfl⟩
  have starts := token.starts
  revert starts
  decide +kernel

-- The backslash hides the rest of the text from the mask.
def backslashed : List Char := "CREATE FUNCTION f(a text DEFAULT '\\') RETURNS TABLE(b int)".toList

theorem clause_behind_a_backslash : ¬ReturnsTableExact postgresLexis backslashed := by
  intro exact'
  have header : HeaderClause postgresLexis backslashed ⟨17,36,51,57⟩ := by
    refine ⟨.inl (by decide +kernel),⟨by decide +kernel,by decide +kernel,by decide +kernel⟩,by decide +kernel,?_,
      by decide +kernel⟩
    exact ⟨[' '],"RETURNS".toList,[' '],"TABLE".toList,[],"b int)".toList,by decide +kernel,
      fun c space => by cases List.mem_singleton.mp space; rfl,rfl,fun c space => by cases List.mem_singleton.mp space; rfl,
      by decide,rfl,nofun,rfl⟩
  have found := (exact'.found _).mp header
  revert found
  decide +kernel

end
end Scythe
