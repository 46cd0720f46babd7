import Scythe.OptionalParams

-- What a statement means whose comparisons with parameters are known: the database
-- reads it as some function of what they come to, row by row.
namespace Scythe
open Text Splice

-- True, false, or unknown.
abbrev Truth := Option Bool

def truthOr : Truth → Truth → Truth
  | some true,_ => some true
  | _,some true => some true
  | some false,some false => some false
  | _,_ => none

def isNull (value : Option α) : Truth := some value.isNone

-- Equality reads the same from either side.
def symmetricOperators : List String := ["=","<>","!="]

structure Database (α Row : Type) where
  holds : String → α → α → Bool
  value : List Char → Row → Option α
  symmetric : ∀ op ∈ symmetricOperators,∀ a b,holds op a b = holds op b a

abbrev Bindings (α : Type) := Int → Option α

-- A comparison of an operand with a parameter, which the dialect writes as a
-- token of its own. `reversed` has the parameter on the left.
structure Comparison where
  operand : List Char
  param : Int
  token : List Char
  op : String
  before : List Char
  spelled : List Char
  after : List Char
  reversed : Bool
  deriving DecidableEq,Repr

def Comparison.text (comparison : Comparison) : List Char :=
  if comparison.reversed then
    comparison.token ++ comparison.before ++ comparison.spelled ++ comparison.after ++ comparison.operand
  else comparison.operand ++ comparison.before ++ comparison.spelled ++ comparison.after ++ comparison.token

-- A condition of the statement: a comparison, behind the parameters that turn it
-- off while they are NULL, the outermost first.
structure Condition where
  guards : List Int
  comparison : Comparison
  deriving DecidableEq,Repr

def guardOpening (param : Int) : List Char := '(' :: placeholderOf param ++ " IS NULL OR ".toList

def Condition.opening (condition : Condition) : List Char := condition.guards.flatMap guardOpening

def Condition.closing (condition : Condition) : List Char := List.replicate condition.guards.length ')'

def Condition.text (condition : Condition) : List Char :=
  condition.opening ++ condition.comparison.text ++ condition.closing

-- The comparison as the rewriting writes it, behind one guard more.
def Comparison.plain (comparison : Comparison) : Comparison :=
  { comparison with
    token := placeholderOf comparison.param, before := [' '], spelled := comparison.op.toList, after := [' '],
    reversed := false }

def Condition.guard (condition : Condition) : Condition where
  guards := condition.guards ++ [condition.comparison.param]
  comparison := condition.comparison.plain

inductive Part where
  | character (c : Char)
  | condition (condition : Condition)
  deriving DecidableEq,Repr

def Part.text : Part → List Char
  | .character c => [c]
  | .condition inner => inner.text

section
variable {α Row Result : Type} (database : Database α Row)

def compare (op : String) : Option α → Option α → Truth
  | some a,some b => some (database.holds op a b)
  | _,_ => none

def Comparison.truth (comparison : Comparison) (bindings : Bindings α) (row : Row) : Truth :=
  let operand := database.value comparison.operand row
  let bound := bindings comparison.param
  if comparison.reversed then compare database comparison.op bound operand
  else compare database comparison.op operand bound

def Condition.truth (condition : Condition) (bindings : Bindings α) (row : Row) : Truth :=
  condition.guards.foldr (fun param truth => truthOr (isNull (bindings param)) truth)
    (condition.comparison.truth database bindings row)

variable (Row Result)

structure SqlStatement where
  parts : List Part
  meaning : List (Row → Truth) → Result

variable {Row Result}

def SqlStatement.text (statement : SqlStatement Row Result) : List Char := statement.parts.flatMap Part.text

def conditionsOf (parts : List Part) : List Condition :=
  parts.filterMap fun
    | .condition inner => some inner
    | .character _ => none

def SqlStatement.eval (statement : SqlStatement Row Result) (bindings : Bindings α) : Result :=
  statement.meaning ((conditionsOf statement.parts).map fun condition => condition.truth database bindings)

end

-- A comparison that the rewriting may guard: of a column with this parameter,
-- spelled `$N`, by this operator, the column on the left where the sides matter.
structure Guardable [CaseMap] (op : String) (param : Int) (comparison : Comparison) : Prop where
  operand : Operand comparison.operand
  operator : comparison.op = op
  parameter : comparison.param = param
  token : comparison.token = placeholderOf param
  spaceBefore : ∀ c ∈ comparison.before,isSpace c = true
  spaceAfter : ∀ c ∈ comparison.after,isSpace c = true
  words : SpelledWords (opWords op) comparison.spelled
  direction : comparison.reversed = true → op ∈ symmetricOperators

section
variable [CaseMap]

-- Some comparisons guarded, and all else as it was.
inductive GuardsSome (op : String) (param : Int) : List Part → List Part → Prop
  | nil : GuardsSome op param [] []
  | keep (part : Part) {parts others : List Part} (rest : GuardsSome op param parts others) :
      GuardsSome op param (part :: parts) (part :: others)
  | guard {condition : Condition} {parts others : List Part} (guardable : Guardable op param condition.comparison)
      (rest : GuardsSome op param parts others) :
      GuardsSome op param (.condition condition :: parts) (.condition condition.guard :: others)

def siteOf (comparison : Comparison) : Site := ⟨comparison.operand,comparison.text⟩

def Condition.cuts (condition : Condition) : List (Cut Char Site) :=
  condition.opening.map .plain ++ .site (siteOf condition.comparison) :: condition.closing.map .plain

-- The sites of a scan are whole comparisons of the statement; `others` are its
-- parts with those comparisons guarded.
inductive Marks (op : String) (param : Int) : List Part → List (Cut Char Site) → List Part → Prop
  | nil : Marks op param [] [] []
  | plain (part : Part) {parts others : List Part} {cuts : List (Cut Char Site)} (rest : Marks op param parts cuts others) :
      Marks op param (part :: parts) (part.text.map .plain ++ cuts) (part :: others)
  | site {condition : Condition} {parts others : List Part} {cuts : List (Cut Char Site)}
      (guardable : Guardable op param condition.comparison) (rest : Marks op param parts cuts others) :
      Marks op param (.condition condition :: parts) (condition.cuts ++ cuts) (.condition condition.guard :: others)

theorem siteOf_isSite {op : String} {param : Int} {comparison : Comparison}
    (guardable : Guardable op param comparison) : IsSite op (placeholderOf param) (siteOf comparison) := by
  refine ⟨guardable.operand,?_⟩
  cases reversed : comparison.reversed with
  | true =>
    refine Or.inr ⟨comparison.before,comparison.spelled,comparison.after,guardable.spaceBefore,guardable.spaceAfter,
      guardable.words,?_⟩
    simp [siteOf,Comparison.text,reversed,guardable.token]
  | false =>
    refine Or.inl ⟨comparison.before,comparison.spelled,comparison.after,guardable.spaceBefore,guardable.spaceAfter,
      guardable.words,?_⟩
    simp [siteOf,Comparison.text,reversed,guardable.token]

omit [CaseMap] in
theorem cuts_source (condition : Condition) : spelled Site.text condition.cuts = condition.text := by
  simp [Condition.cuts,Condition.text,siteOf]

theorem cuts_target {op : String} {param : Int} {condition : Condition}
    (guardable : Guardable op param condition.comparison) :
    spelled (Site.guarded op (placeholderOf param)) condition.cuts = condition.guard.text := by
  have parameter := guardable.parameter
  have operator := guardable.operator
  rw [Condition.cuts,spelled_append,spelled_plains,spelled_site,spelled_plains]
  simp [Condition.text,Condition.opening,Condition.closing,Condition.guard,Comparison.plain,Comparison.text,siteOf,
    Site.guarded,guarded,guardOpening,parameter,operator,List.replicate_succ]

theorem marks_spec {op : String} {param : Int} {parts others : List Part} {cuts : List (Cut Char Site)}
    (marks : Marks op param parts cuts others) :
    spelled Site.text cuts = parts.flatMap Part.text ∧
      spelled (Site.guarded op (placeholderOf param)) cuts = others.flatMap Part.text ∧
      SitesIn (IsSite op (placeholderOf param)) cuts ∧ GuardsSome op param parts others := by
  induction marks with
  | nil => exact ⟨rfl,rfl,sitesIn_plains [],.nil⟩
  | plain part rest ih =>
    obtain ⟨source,target,sites,guards⟩ := ih
    refine ⟨?_,?_,sitesIn_append (sitesIn_plains _) sites,.keep part guards⟩
    · rw [spelled_append,spelled_plains,source,List.flatMap_cons]
    · rw [spelled_append,spelled_plains,target,List.flatMap_cons]
  | site guardable rest ih =>
    obtain ⟨source,target,sites,guards⟩ := ih
    refine ⟨?_,?_,?_,.guard guardable guards⟩
    · rw [spelled_append,cuts_source,source,List.flatMap_cons]
      rfl
    · rw [spelled_append,cuts_target guardable,target,List.flatMap_cons]
      rfl
    · refine sitesIn_append (sitesIn_append (sitesIn_plains _) ?_) sites
      intro site member
      rcases List.mem_cons.mp member with equal | later
      · cases equal
        exact siteOf_isSite guardable
      · exact sitesIn_plains _ site later

theorem guards_marked {op : String} {param : Int} {parts others : List Part}
    (guards : GuardsSome op param parts others) : ∃ cuts,Marks op param parts cuts others := by
  induction guards with
  | nil => exact ⟨[],.nil⟩
  | keep part rest ih =>
    obtain ⟨cuts,marks⟩ := ih
    exact ⟨_,.plain part marks⟩
  | guard guardable rest ih =>
    obtain ⟨cuts,marks⟩ := ih
    exact ⟨_,.site guardable marks⟩

omit [CaseMap] in
theorem truthOr_false (truth : Truth) : truthOr (some false) truth = truth := by
  cases truth with
  | none => rfl
  | some value => cases value <;> rfl

omit [CaseMap] in
theorem compare_symmetric {α Row : Type} (database : Database α Row) {op : String} (symmetric : op ∈ symmetricOperators)
    (x y : Option α) : compare database op x y = compare database op y x := by
  cases x with
  | none => cases y <;> rfl
  | some a =>
    cases y with
    | none => rfl
    | some b => simp only [compare,database.symmetric op symmetric a b]

section
variable {α Row Result : Type} {database : Database α Row}

theorem plain_truth {op : String} {param : Int} {comparison : Comparison} (guardable : Guardable op param comparison)
    (bindings : Bindings α) (row : Row) :
    comparison.plain.truth database bindings row = comparison.truth database bindings row := by
  cases reversed : comparison.reversed with
  | false => simp [Comparison.truth,Comparison.plain,reversed]
  | true =>
    have symmetric := guardable.direction reversed
    rw [←guardable.operator] at symmetric
    simp only [Comparison.truth,Comparison.plain,reversed]
    exact compare_symmetric database symmetric _ _

-- A guard whose parameter is bound changes nothing.
theorem guard_truth {op : String} {param : Int} {condition : Condition}
    (guardable : Guardable op param condition.comparison) {bindings : Bindings α} (bound : bindings param ≠ none)
    (row : Row) : condition.guard.truth database bindings row = condition.truth database bindings row := by
  have off : isNull (bindings param) = some false := by
    cases value : bindings param with
    | none => exact absurd value bound
    | some value => rfl
  have parameter := guardable.parameter
  rw [Condition.truth,Condition.guard,List.foldr_append,List.foldr_cons,List.foldr_nil,parameter,off,truthOr_false,
    plain_truth guardable]
  rfl

theorem guards_truths {op : String} {param : Int} {parts others : List Part} (guards : GuardsSome op param parts others)
    {bindings : Bindings α} (bound : bindings param ≠ none) :
    (conditionsOf others).map (fun condition => condition.truth database bindings) =
      (conditionsOf parts).map fun condition => condition.truth database bindings := by
  induction guards with
  | nil => rfl
  | keep part rest ih =>
    cases part with
    | character c => exact ih
    | condition condition =>
      simp only [conditionsOf,List.filterMap_cons,List.map_cons] at ih ⊢
      rw [ih]
  | guard guardable rest ih =>
    simp only [conditionsOf,List.filterMap_cons,List.map_cons] at ih ⊢
    rw [ih]
    congr 1
    funext row
    exact guard_truth guardable bound row

-- How the database reads texts: it gives a text it reads as a statement that
-- statement's meaning, and a condition in parentheses may stand wherever a
-- comparison did.
structure Reader (database : Database α Row) (Result : Type) where
  reads : SqlStatement Row Result → Prop
  result : List Char → Bindings α → Result
  faithful : ∀ {statement : SqlStatement Row Result},reads statement → ∀ bindings,
    result statement.text bindings = statement.eval database bindings
  parenthesized : ∀ {statement : SqlStatement Row Result} {op : String} {param : Int} {others : List Part},
    reads statement → GuardsSome op param statement.parts others → reads { statement with parts := others }

end

-- One pass for each optional parameter that is found and each operator.
abbrev Pass := Int × String

def passesOf (lookup : String → Option AnalyzedParam) (optionalParams : List String) : List Pass :=
  optionalParams.flatMap fun optName =>
    match lookup optName with
    | none => []
    | some param => comparisonOperators.map fun op => (param.position,op)

def passes (params : List AnalyzedParam) (optionalParams : List String) : List Pass :=
  passesOf (fun optName => params.find? fun param => param.name = optName) optionalParams

def rewritePass (sql : List Char) (pass : Pass) : List Char := rewriteComparison pass.2 (placeholderOf pass.1) sql

theorem rewriteOptionalParams_passes (sql : List Char) (optionalParams : List String) (params : List AnalyzedParam) :
    (rewriteOptionalParams (String.ofList sql) optionalParams params).toList =
      (passes params optionalParams).foldl rewritePass sql := by
  rw [rewriteOptionalParams,passes,passesOf,List.foldl_flatMap,String.toList_ofList,String.toList_ofList]
  congr 1
  funext sql optName
  rw [rewriteOptionalParam]
  cases params.find? fun param => param.name = optName with
  | none => rfl
  | some param => rw [List.foldl_map]; rfl

omit [CaseMap] in
theorem passes_operators {lookup : String → Option AnalyzedParam} {optionalParams : List String} :
    ∀ pass ∈ passesOf lookup optionalParams,pass.2 ∈ comparisonOperators := by
  intro pass member
  obtain ⟨optName,-,here⟩ := List.mem_flatMap.mp member
  split at here
  next => cases here
  next =>
    obtain ⟨op,operator,equal⟩ := List.mem_map.mp here
    rw [←equal]
    exact operator

section
variable {Row Result : Type}

-- One pass after the other, each over what the one before it left.
inductive PassRun (step : Pass → List Part → List Part → Prop) : List Pass → List Part → List Part → Prop
  | nil (parts : List Part) : PassRun step [] parts parts
  | cons {pass : Pass} {rest : List Pass} {parts others final : List Part} (first : step pass parts others)
      (later : PassRun step rest others final) : PassRun step (pass :: rest) parts final

-- A pass puts a guard around some of the comparisons and alters nothing else.
def PassGuards (pass : Pass) (parts others : List Part) : Prop :=
  GuardsSome pass.2 pass.1 parts others ∧ rewritePass (parts.flatMap Part.text) pass = others.flatMap Part.text

-- A pass finds whole comparisons alone, and none with its sides the wrong way.
def PassFinds (pass : Pass) (parts others : List Part) : Prop :=
  Marks pass.2 pass.1 parts (scan pass.2 (placeholderOf pass.1) (parts.flatMap Part.text)) others

omit [CaseMap] in
theorem PassRun.congr {step step' : Pass → List Part → List Part → Prop} {passes : List Pass}
    (same : ∀ pass ∈ passes,∀ parts others,step pass parts others ↔ step' pass parts others) {parts final : List Part} :
    PassRun step passes parts final ↔ PassRun step' passes parts final := by
  constructor
  · intro run
    induction run with
    | nil parts => exact .nil parts
    | cons first later ih =>
      have here := (same _ List.mem_cons_self _ _).mp first
      exact .cons here (ih fun pass member => same pass (List.mem_cons_of_mem _ member))
  · intro run
    induction run with
    | nil parts => exact .nil parts
    | cons first later ih =>
      have here := (same _ List.mem_cons_self _ _).mpr first
      exact .cons here (ih fun pass member => same pass (List.mem_cons_of_mem _ member))

omit [CaseMap] in
theorem placeholder_proper (param : Int) : ProperPlaceholder (placeholderOf param) := ⟨_,rfl⟩

theorem pass_exact (ordinary : OrdinaryCharacters) {pass : Pass} (proper : ProperOperator pass.2)
    (parts others : List Part) : PassFinds pass parts others ↔ PassGuards pass parts others := by
  obtain ⟨param,op⟩ := pass
  have nonempty : placeholderOf param ≠ [] := by simp [placeholderOf]
  obtain ⟨source,target,sites⟩ := rewriteComparison_spec proper.some nonempty (parts.flatMap Part.text)
  constructor
  · intro marks
    obtain ⟨-,written,-,guards⟩ := marks_spec marks
    exact ⟨guards,target.symm.trans written⟩
  · intro both
    obtain ⟨guards,written⟩ := both
    obtain ⟨cuts,marks⟩ := guards_marked guards
    obtain ⟨sourceHere,targetHere,sitesHere,-⟩ := marks_spec marks
    have same := cuts_unique (sites_recognizable ordinary proper (placeholder_proper param)) sites sitesHere
      (source.trans sourceHere.symm) ((target.trans written).trans targetHere.symm)
    rw [PassFinds,same]
    exact marks

theorem passes_exact (ordinary : OrdinaryCharacters) {steps : List Pass}
    (operators : ∀ pass ∈ steps,pass.2 ∈ comparisonOperators) {parts final : List Part} :
    PassRun PassFinds steps parts final ↔ PassRun PassGuards steps parts final := by
  apply PassRun.congr
  intro pass member parts others
  exact pass_exact ordinary (comparisonOperators_proper pass.2 (operators pass member)) parts others

theorem passes_text {steps : List Pass} {parts final : List Part} (run : PassRun PassGuards steps parts final) :
    steps.foldl rewritePass (parts.flatMap Part.text) = final.flatMap Part.text := by
  induction run with
  | nil parts => rfl
  | cons first later ih => rw [List.foldl_cons,first.2,ih]

theorem passes_preserve {α : Type} {database : Database α Row} (reader : Reader database Result) {steps : List Pass}
    {statement : SqlStatement Row Result} (reads : reader.reads statement) {final : List Part}
    (run : PassRun PassGuards steps statement.parts final) {bindings : Bindings α}
    (bound : ∀ pass ∈ steps,bindings pass.1 ≠ none) :
    reader.result (steps.foldl rewritePass statement.text) bindings = reader.result statement.text bindings := by
  obtain ⟨parts,meaning⟩ := statement
  dsimp only at run
  induction run with
  | nil parts => rfl
  | @cons pass rest parts others final first later ih =>
    obtain ⟨guards,written⟩ := first
    have readsNext := reader.parenthesized reads guards
    have next := ih (fun pass member => bound pass (List.mem_cons_of_mem _ member)) readsNext
    have same : reader.result (others.flatMap Part.text) bindings = reader.result (parts.flatMap Part.text) bindings := by
      have left := reader.faithful readsNext bindings
      have right := reader.faithful reads bindings
      simp only [SqlStatement.text,SqlStatement.eval,guards_truths guards (bound pass List.mem_cons_self)] at left right
      exact left.trans right.symm
    rw [List.foldl_cons,SqlStatement.text,written]
    exact next.trans same

theorem optional_rewrite_guards_comparisons {α : Type} {database : Database α Row} (ordinary : OrdinaryCharacters)
    (reader : Reader database Result) (optionalParams : List String) (params : List AnalyzedParam)
    {statement : SqlStatement Row Result} (reads : reader.reads statement) :
    ((∃ final,PassRun PassGuards (passes params optionalParams) statement.parts final) ∧
        ∀ bindings,(∀ pass ∈ passes params optionalParams,bindings pass.1 ≠ none) →
          reader.result (rewriteOptionalParams (String.ofList statement.text) optionalParams params).toList bindings =
            reader.result statement.text bindings) ↔
      ∃ final,PassRun PassFinds (passes params optionalParams) statement.parts final := by
  constructor
  · intro both
    obtain ⟨final,run⟩ := both.1
    exact ⟨final,(passes_exact ordinary passes_operators).mpr run⟩
  · intro finds
    obtain ⟨final,found⟩ := finds
    have run := (passes_exact ordinary passes_operators).mp found
    refine ⟨⟨final,run⟩,?_⟩
    intro bindings bound
    rw [rewriteOptionalParams_passes]
    exact passes_preserve reader reads run bound

end

theorem guards_characters {op : String} {param : Int} (text : List Char) {parts others : List Part}
    (guards : GuardsSome op param (text.map .character ++ parts) others) :
    ∃ rest,others = text.map .character ++ rest ∧ GuardsSome op param parts rest := by
  induction text generalizing others with
  | nil => exact ⟨others,rfl,guards⟩
  | cons c text ih =>
    cases guards with
    | keep part rest =>
      obtain ⟨later,equal,guards⟩ := ih rest
      exact ⟨later,by rw [equal]; rfl,guards⟩

end

section Examples
local instance optionalAscii : CaseMap := ascii

def priceHolds (op : String) (a b : Int) : Bool :=
  if op = "<" then a < b else if op = ">" then a > b else if op = "=" then a = b else a ≠ b

def prices : Database Int Int where
  holds := priceHolds
  value operand price := if operand = "price".toList then some price else none
  symmetric := by
    intro op member a b
    simp only [symmetricOperators,List.mem_cons,List.not_mem_nil,or_false] at member
    rcases member with rfl | rfl | rfl <;> simp [priceHolds,eq_comm]

def priceText : List Char := "SELECT id FROM items WHERE ".toList

def priceAbove : Comparison := ⟨"price".toList,1,"$1".toList,">",[' '],['>'],[' '],false⟩

-- The items whose price the condition lets through.
def priced (condition : Condition) : SqlStatement Int (List Int) where
  parts := priceText.map .character ++ [.condition condition]
  meaning truths := [3,7].filter fun price => truths.all fun truth => truth price = some true

def pricedAbove (guards : Nat) : SqlStatement Int (List Int) := priced ⟨List.replicate guards 1,priceAbove⟩

theorem opening_parentheses (guards : Nat) :
    (Condition.opening ⟨List.replicate guards 1,priceAbove⟩).count '(' = guards := by
  induction guards with
  | zero => rfl
  | succ guards ih =>
    have next : (guardOpening 1).count '(' = 1 := by decide
    rw [Condition.opening] at ih ⊢
    rw [List.replicate_succ,List.flatMap_cons,List.count_append,ih,next,Nat.add_comm]

theorem pricedAbove_parentheses (guards : Nat) : (pricedAbove guards).text.count '(' = guards := by
  have text : (pricedAbove guards).text =
      priceText ++ (Condition.opening ⟨List.replicate guards 1,priceAbove⟩ ++ priceAbove.text ++
        List.replicate guards ')') := by
    have head (text : List Char) : (text.map Part.character).flatMap Part.text = text := by
      induction text with
      | nil => rfl
      | cons c text ih => rw [List.map_cons,List.flatMap_cons,ih]; rfl
    rw [SqlStatement.text,pricedAbove,priced,List.flatMap_append,head,List.flatMap_cons,List.flatMap_nil,List.append_nil,
      Part.text,Condition.text,Condition.closing,List.length_replicate]
  have others : priceText.count '(' = 0 ∧ priceAbove.text.count '(' = 0 := by decide
  have closing : (List.replicate guards ')').count '(' = 0 := by
    rw [List.count_replicate]
    rfl
  rw [text,List.count_append,List.count_append,List.count_append,opening_parentheses,others.1,others.2,closing]
  omega

-- How often it opens a parenthesis tells the guards of a text.
def priceReader : Reader prices (List Int) where
  reads statement := ∃ guards,statement = pricedAbove guards
  result text bindings := (pricedAbove (text.count '(')).eval prices bindings
  faithful reads bindings := by
    obtain ⟨guards,rfl⟩ := reads
    rw [pricedAbove_parentheses]
  parenthesized reads guards := by
    obtain ⟨count,rfl⟩ := reads
    obtain ⟨rest,equal,last⟩ := guards_characters priceText guards
    cases last with
    | keep part done =>
      cases done
      exact ⟨count,by rw [equal]; rfl⟩
    | guard guardable done =>
      cases done
      have written : pricedAbove (count + 1) = priced (Condition.guard ⟨List.replicate count 1,priceAbove⟩) := by
        have plain : priceAbove.plain = priceAbove := by decide
        rw [pricedAbove,List.replicate_succ',Condition.guard,plain]
        rfl
      exact ⟨count + 1,by rw [written,equal]; rfl⟩

def minimum : AnalyzedParam := ⟨"minimum","int32",false,1,none⟩

theorem priced_guards :
    ((∃ final,PassRun PassGuards (passes [minimum] ["minimum"]) (pricedAbove 0).parts final) ∧
        ∀ bindings,(∀ pass ∈ passes [minimum] ["minimum"],bindings pass.1 ≠ none) →
          priceReader.result (rewriteOptionalParams (String.ofList (pricedAbove 0).text) ["minimum"] [minimum]).toList
              bindings = priceReader.result (pricedAbove 0).text bindings) ↔
      ∃ final,PassRun PassFinds (passes [minimum] ["minimum"]) (pricedAbove 0).parts final :=
  optional_rewrite_guards_comparisons ascii_ordinary priceReader ["minimum"] [minimum] ⟨0,rfl⟩

def belowPrice : Comparison := ⟨"price".toList,1,"$1".toList,"<",[' '],['<'],[' '],true⟩

-- A parameter on the left comes to the right, and its operator stays.
theorem below_turns :
    String.ofList (priced ⟨[],belowPrice⟩).text = "SELECT id FROM items WHERE $1 < price" ∧
      rewriteOptionalParams "SELECT id FROM items WHERE $1 < price" ["minimum"] [minimum] =
        "SELECT id FROM items WHERE ($1 IS NULL OR price < $1)" ∧
      String.ofList (priced ⟨[1],belowPrice.plain⟩).text =
        "SELECT id FROM items WHERE ($1 IS NULL OR price < $1)" ∧
      (priced ⟨[],belowPrice⟩).eval prices (fun _ => some 5) = [7] ∧
      (priced ⟨[1],belowPrice.plain⟩).eval prices (fun _ => some 5) = [3] := by
  refine ⟨by decide,by decide,by decide,by decide,by decide⟩

end Examples
end Scythe
