import Scythe.Cleaning
import Scythe.Identifiers
import Scythe.Lib.Doubling
import Scythe.Literals
import Scythe.LivePlaceholders
import Scythe.OptionalParams
import Scythe.Overrides
import Scythe.Verification

-- The SQL of python-psycopg3: percent signs are doubled, placeholders become references
-- by name, the text becomes a literal. Python reads the literal, the driver its text.
namespace Scythe.PercentStyle
open Text Splice Doubling Identifiers Verification

structure ResolvedParam extends Scythe.ResolvedParam where
  fieldName : String
  deriving DecidableEq,Repr

def reservedWords : List String :=
  ["and","as","assert","async","await","break","class","continue","def","del","elif","else","except","false","finally",
    "for","from","global","if","import","in","is","lambda","none","nonlocal","not","or","pass","raise","return","true",
    "try","while","with","yield"]

def pythonNaming : NamingConfig where
  structCase := "PascalCase"
  fnCase := "snake_case"
  enumVariantCase := "SCREAMING_SNAKE_CASE"
  rowSuffix := "Row"
  fieldCase := "snake_case"
  reserved := reservedWords
  sanitizeFieldNames := true

def doublePercentForPercentParamstyle (sql : List Char) : List Char := doubled '%' sql

def codeSpanHasDollarNumber : List Char → Bool
  | [] => false
  | c :: cs => (c = '$' && (cs.head?.map isDigit).getD false) || codeSpanHasDollarNumber cs

def usesDollarPlaceholders (spans : List SqlSpan) : Bool :=
  spans.any fun span => span.1 = .code && codeSpanHasDollarNumber span.2

-- `none` is a panic of the formatter.
def formatted (formatter : Nat → Option String) : Piece → Option (List Char)
  | .copied text => some text
  | .placeholder position => (formatter position).map (·.toList)

def rewritten (formatter : Nat → Option String) (pieces : List Piece) : Option (List Char) :=
  (pieces.mapM' (formatted formatter)).map List.flatten

section Emission
variable [CaseMap]

def rewritePgPlaceholders (sql : List Char) (formatter : Nat → Option String) : Option (List Char) :=
  let spans := tokenizeSql sql .postgreSQL
  rewritten formatter (spansPieces (!usesDollarPlaceholders spans) 0 spans)

def cleanSqlWithOptional (sql : String) (optionalParams : List String) (params : List AnalyzedParam) : String :=
  rewriteOptionalParams (cleanSql sql) optionalParams params

-- The manifest reserves no names of bindings.
def resolveParam (overrides : List TypeOverride) (sourceTable : String) (param : AnalyzedParam) : ResolvedParam :=
  ⟨⟨(findOverride overrides (param.columnMatch sourceTable) param.neutralType).getD param.neutralType⟩,
    identifierName pythonNaming param.name⟩

-- `none` where two of the names are the same.
def resolveParams (params : List AnalyzedParam) (overrides : List TypeOverride) (sourceTable : String) :
    Option (List ResolvedParam) :=
  let resolved := params.map (resolveParam overrides sourceTable)
  if (resolved.map (·.fieldName)).Nodup then some resolved else none

section
variable (analyzed : List AnalyzedParam) (params : List ResolvedParam)

-- `position as u32`.
def wrapped (position : Int) : Nat := (position % 2 ^ 32).toNat

-- Of two parameters for one key of the map the later one stays.
def nameMap (position : Nat) : Option String :=
  ((analyzed.zip params).reverse.find? fun pair => wrapped pair.1.position = position).map fun pair => pair.2.fieldName

def keyAt (position : Nat) : String := (nameMap analyzed params position).getD "?"

-- `generate_query_fn` and `generate_grouped_query_fn`.
inductive Emitter where
  | flat
  | grouped
  deriving DecidableEq,Repr

def resolvedAt (position : Nat) : Option Scythe.ResolvedParam :=
  resolvedParamForPosition analyzed (params.map (·.toResolvedParam)) position

def Emitter.placeholder (position : Nat) : Emitter → Option String
  | .flat => (resolvedAt analyzed params position).map fun param =>
    let placeholder := "%(" ++ keyAt analyzed params position ++ ")s"
    match stripPrefix param.neutralType "composite::" with
    | some sqlType => placeholder ++ "::text::" ++ sqlType
    | none => placeholder
  | .grouped => some ("%(" ++ keyAt analyzed params position ++ ")s")

end

def Emitter.literal (sql : List Char) : Emitter → List Char
  | .flat => '"' :: '"' :: '"' :: sql ++ ['"','"','"']
  | .grouped => '"' :: '"' :: '"' :: '\n' :: (lines sql).flatMap (· ++ ['\n']) ++ ['"','"','"']

variable (query : AnalyzedQuery) (params : List ResolvedParam)

def sqlClean : List Char := (cleanSqlWithOptional query.sql query.optionalParams query.params).toList

def percentDoubled : List Char :=
  if params.isEmpty then sqlClean query else doublePercentForPercentParamstyle (sqlClean query)

def Emitter.source (emitter : Emitter) : Option (List Char) :=
  (rewritePgPlaceholders (percentDoubled query params) fun position =>
    emitter.placeholder query.params params position).map fun sql => emitter.literal (escapePythonTripleDouble sql)

end Emission

section Driver

-- What a driver makes of the text of a query: characters for the server, and references
-- to the keys of the mapping that comes along.
inductive Sent where
  | text (c : Char)
  | reference (key : String)
  deriving DecidableEq,Repr

def written (bound : Bool) (c : Char) : List Char := if bound then double '%' c else [c]

-- How psycopg has a query written. With parameters, a percent sign stands twice and a
-- reference is the key in parentheses between a percent sign and a format.
inductive Spelled (bound : Bool) : List Sent → List Char → Prop where
  | done : Spelled bound [] []
  | text (c : Char) {sent : List Sent} {cs : List Char} (rest : Spelled bound sent cs) :
      Spelled bound (.text c :: sent) (written bound c ++ cs)
  | reference {key : String} {format : Char} {sent : List Sent} {cs : List Char} (parsed : bound = true)
      (named : key ≠ "") (closed : ')' ∉ key.toList) (known : format ∈ ['s','b','t']) (rest : Spelled bound sent cs) :
      Spelled bound (.reference key :: sent) ('%' :: '(' :: (key.toList ++ ')' :: format :: cs))

-- A driver that reads what is written so, and nothing else.
structure PercentDriver where
  read : List Char → Option (List Sent)
  reads : ∀ {sent : List Sent} {cs : List Char},Spelled true sent cs → read cs = some sent
  only : ∀ {sent : List Sent} {cs : List Char},read cs = some sent → Spelled true sent cs

-- Without a mapping the text goes to the server as it is.
def PercentDriver.execute (driver : PercentDriver) (bound : Bool) (text : List Char) : Option (List Sent) :=
  if bound then driver.read text else some (text.map .text)

end Driver

section Meaning
variable [CaseMap] (query : AnalyzedQuery) (params : List ResolvedParam)

def executed (driver : PercentDriver) (emitter : Emitter) : Option (List Sent) :=
  ((emitter.source query params).bind fun source => HostLiteral.python.decode source).bind
    (driver.execute !params.isEmpty)

-- The mapping has the key, for the parameter with the position.
def BelongsTo (position : Nat) (key : String) : Prop :=
  ∃ pair ∈ query.params.zip params,pair.1.position = (position : Int) ∧ pair.2.fieldName = key

-- What stands behind a reference.
def Emitter.cast (position : Nat) : Emitter → String
  | .flat => ((resolvedAt query.params params position).bind fun param => stripPrefix param.neutralType "composite::").elim ""
    ("::text::" ++ ·)
  | .grouped => ""

-- Each placeholder gives way to a reference to its parameter, all else stays.
inductive Faithful (emitter : Emitter) : PlaceholderCuts → List Sent → Prop where
  | done : Faithful emitter [] []
  | text (c : Char) {cuts : PlaceholderCuts} {sent : List Sent} (rest : Faithful emitter cuts sent) :
      Faithful emitter (.plain c :: cuts) (.text c :: sent)
  | parameter {digits : List Char} {key : String} {cuts : PlaceholderCuts} {sent : List Sent}
      (belongs : BelongsTo query params (natOfDigits digits) key) (rest : Faithful emitter cuts sent) :
      Faithful emitter (.site ('$' :: digits) :: cuts)
        (.reference key :: ((emitter.cast query params (placeholderNumber digits)).toList.map .text ++ sent))

-- The last line is closed where it is not.
def closing (sql : List Char) : List Char := if sql.getLast?.all (· = '\n') then [] else ['\n']

-- A grouped function has its query on lines of its own.
def Emitter.framed (sql : List Char) (sent : List Sent) : Emitter → List Sent
  | .flat => sent
  | .grouped => .text '\n' :: (sent ++ (closing sql).map .text)

def Transparent (driver : PercentDriver) (lexer : DialectLexer) (emitter : Emitter) : Prop :=
  ∃ sent,Faithful query params emitter (lexer.cuts (sqlClean query)) sent ∧
    executed query params driver emitter = some (emitter.framed (sqlClean query) sent)

-- The placeholders that the generator sees.
def seenCuts (sql : List Char) : PlaceholderCuts :=
  let spans := tokenizeSql sql .postgreSQL
  spans.flatMap (spanCuts (codeScan !usesDollarPlaceholders spans))

-- A placeholder whose number the generator has a parameter for: the one that the
-- number means, by a name, and with a cast that goes through the literal and the driver.
structure Owned (emitter : Emitter) (digits : List Char) : Prop where
  belongs : BelongsTo query params (natOfDigits digits) (keyAt query.params params (placeholderNumber digits))
  named : keyAt query.params params (placeholderNumber digits) ≠ ""
  resolved : emitter = .flat → (resolvedAt query.params params (placeholderNumber digits)).isSome
  cast : ∀ c ∈ (emitter.cast query params (placeholderNumber digits)).toList,HostLiteral.python.carries c ∧ c ≠ '%'

structure Sound (lexer : DialectLexer) (emitter : Emitter) : Prop where
  carried : ∀ c ∈ sqlClean query,HostLiteral.python.carries c
  places : ∀ before,Finds id (seenCuts (sqlClean query)) before ↔ Finds id (lexer.cuts (sqlClean query)) before
  owned : ∀ digits,.site ('$' :: digits) ∈ lexer.cuts (sqlClean query) → Owned query params emitter digits

end Meaning

section Rewriting
variable {formatter : Nat → Option String}

theorem rewritten_cons (piece : Piece) (pieces : List Piece) :
    rewritten formatter (piece :: pieces) =
      (formatted formatter piece).bind fun text => (rewritten formatter pieces).map (text ++ ·) := by
  unfold rewritten
  rw [List.mapM'_cons]
  cases formatted formatter piece with
  | none => rfl
  | some text => cases pieces.mapM' (formatted formatter) <;> rfl

-- What comes out is known from what a formatter that never panics brings out.
theorem rewritten_outcome (pieces : List Piece) :
    rewritten formatter pieces =
      if (outcome (fun n => (formatter n).getD "") pieces).2.all fun n => (formatter n).isSome then
        some (outcome (fun n => (formatter n).getD "") pieces).1.toList else none := by
  induction pieces with
  | nil => simp [rewritten,outcome]
  | cons piece pieces ih =>
    rw [rewritten_cons,ih]
    unfold outcome
    cases piece with
    | copied text =>
      simp only [formatted,Option.bind_some,List.flatMap_cons,Piece.written,List.filterMap_cons,Piece.position?,
        String.toList_ofList]
      split <;> rfl
    | placeholder n =>
      simp only [formatted,List.flatMap_cons,Piece.written,List.filterMap_cons,Piece.position?,String.toList_ofList,
        List.all_cons]
      cases formatter n with
      | none => rfl
      | some text =>
        simp only [Option.map_some,Option.bind_some,Option.isSome_some,Bool.true_and,Option.getD_some]
        split <;> rfl

-- The number of a placeholder, and the next one of those without digits.
def numberAt (counter : Nat) (token : List Char) : Nat × Nat :=
  match token.tail with
  | [] => (counter + 1,counter + 1)
  | digits => (placeholderNumber digits,counter)

def textOf (bound : Bool) (formatter : Nat → Option String) : Nat → PlaceholderCuts → Option (List Char)
  | _,[] => some []
  | counter,.plain c :: cuts => (textOf bound formatter counter cuts).map (written bound c ++ ·)
  | counter,.site token :: cuts =>
    (formatter (numberAt counter token).1).bind fun text =>
      (textOf bound formatter (numberAt counter token).2 cuts).map (text.toList ++ ·)

theorem rewritten_numbered (counter : Nat) (cuts : PlaceholderCuts) :
    rewritten formatter (numbered counter cuts).1 = textOf false formatter counter cuts := by
  induction cuts generalizing counter with
  | nil => rfl
  | cons cut cuts ih =>
    cases cut with
    | plain c =>
      simp only [numbered,textOf]
      rw [rewritten_cons,ih]
      rfl
    | site token =>
      rw [numbered,textOf,numberAt]
      cases token.tail with
      | nil =>
        dsimp only
        rw [rewritten_cons,ih,formatted,Option.bind_map]
        rfl
      | cons d digits =>
        dsimp only
        rw [rewritten_cons,ih,formatted,Option.bind_map]
        rfl

def doubledCut : Cut Char (List Char) → PlaceholderCuts
  | .plain c => (double '%' c).map .plain
  | .site token => [.site token]

theorem textOf_doubled (counter : Nat) (cuts : PlaceholderCuts) :
    textOf false formatter counter (cuts.flatMap doubledCut) = textOf true formatter counter cuts := by
  induction cuts generalizing counter with
  | nil => rfl
  | cons cut cuts ih =>
    rw [List.flatMap_cons]
    cases cut with
    | plain c =>
      by_cases percent : c = '%'
      · subst percent
        change textOf false formatter counter (.plain '%' :: .plain '%' :: cuts.flatMap doubledCut) = _
        rw [textOf,textOf,textOf,ih,Option.map_map]
        rfl
      · have single : doubledCut (.plain c) = [.plain c] := by simp [doubledCut,double,percent]
        have same : written true c = written false c := by simp [written,double,percent]
        rw [single,List.singleton_append,textOf,textOf,ih,same]
    | site token =>
      change textOf false formatter counter (.site token :: cuts.flatMap doubledCut) = _
      rw [textOf,textOf]
      simp only [ih]

theorem plains_doubled (text : List Char) :
    ((doubled '%' text).map .plain : PlaceholderCuts) = (text.map .plain).flatMap doubledCut := by
  induction text with
  | nil => rfl
  | cons c text ih =>
    rw [List.map_cons,List.flatMap_cons,← ih]
    by_cases percent : c = '%'
    · subst percent
      rw [doubled_self]
      rfl
    · rw [doubled_other percent]
      simp [doubledCut,double,percent]

theorem operators_plain : ∀ op ∈ unambiguousOperators,'%' ∉ op.toList := by decide

theorem operator_plain {cs operator rest : List Char} (found : matchUnambiguousOperator cs = some (operator,rest)) :
    '%' ∉ operator := by
  obtain ⟨op,member,matched⟩ := List.exists_of_findSome?_eq_some found
  obtain ⟨rest',-,equal⟩ := Option.map_eq_some_iff.mp matched
  rw [← (Prod.mk.inj equal).1]
  exact operators_plain op member

theorem operator_doubled (cs : List Char) :
    matchUnambiguousOperator (doubled '%' cs) =
      (matchUnambiguousOperator cs).map fun found => (found.1,doubled '%' found.2) := by
  have each : ∀ operators : List String,(∀ op ∈ operators,'%' ∉ op.toList) →
      (operators.findSome? fun op => (op.toList.isPrefixOf? (doubled '%' cs)).map fun rest => (op.toList,rest)) =
        (operators.findSome? fun op => (op.toList.isPrefixOf? cs).map fun rest => (op.toList,rest)).map
          fun found => (found.1,doubled '%' found.2) := by
    intro operators
    induction operators with
    | nil => exact fun _ => rfl
    | cons op operators ih =>
      intro plain
      have tail := ih fun other member => plain other (List.mem_cons_of_mem _ member)
      rw [List.findSome?_cons,List.findSome?_cons,isPrefixOf_doubled (plain op List.mem_cons_self)]
      cases op.toList.isPrefixOf? cs with
      | none => exact tail
      | some rest => rfl
  exact each unambiguousOperators operators_plain

theorem operator_percent (cs : List Char) : matchUnambiguousOperator ('%' :: cs) = none := by
  cases found : matchUnambiguousOperator ('%' :: cs) with
  | none => rfl
  | some parts =>
    obtain ⟨operator,rest⟩ := parts
    obtain ⟨whole,present⟩ := matchUnambiguousOperator_spec found
    obtain ⟨o,operator,rfl⟩ := List.exists_cons_of_ne_nil present
    have first : '%' = o := (List.cons.inj whole).1
    exact absurd (first ▸ List.mem_cons_self) (operator_plain found)

theorem codeSpanCuts_percent (bare : Bool) (fuel : Nat) (cs : List Char) :
    codeSpanCuts bare (fuel + 1) ('%' :: cs) = .plain '%' :: codeSpanCuts bare fuel cs := by
  rw [codeSpanCuts,operator_percent]
  rfl

theorem codeSpanCuts_doubled (bare : Bool) {fuel more : Nat} {cs : List Char} (enough : cs.length ≤ fuel)
    (doubledEnough : (doubled '%' cs).length ≤ more) :
    codeSpanCuts bare more (doubled '%' cs) = (codeSpanCuts bare fuel cs).flatMap doubledCut := by
  induction fuel generalizing more cs with
  | zero =>
    have empty : cs = [] := List.eq_nil_of_length_eq_zero (by omega)
    subst empty
    cases more <;> rfl
  | succ fuel ih =>
    cases cs with
    | nil => cases more <;> rfl
    | cons c cs =>
      have tail : cs.length ≤ fuel := Nat.le_of_succ_le_succ enough
      by_cases percent : c = '%'
      · subst percent
        rw [doubled_self,List.length_cons,List.length_cons] at doubledEnough
        obtain ⟨more,rfl⟩ : ∃ less,more = less + 2 := ⟨more - 2,by omega⟩
        rw [doubled_self,codeSpanCuts_percent,codeSpanCuts_percent,codeSpanCuts_percent,ih tail (by omega)]
        rfl
      · have operator := operator_doubled (c :: cs)
        rw [doubled_other percent] at operator doubledEnough ⊢
        rw [List.length_cons] at doubledEnough
        obtain ⟨more,rfl⟩ : ∃ less,more = less + 1 := ⟨more - 1,by omega⟩
        rw [codeSpanCuts,operator,codeSpanCuts]
        cases found : matchUnambiguousOperator (c :: cs) with
        | some parts =>
          obtain ⟨op,rest⟩ := parts
          obtain ⟨whole,present⟩ := matchUnambiguousOperator_spec found
          have positive := List.length_pos_iff.mpr present
          have length := congrArg List.length whole
          have plain := operator_plain found
          have lengths := congrArg List.length (congrArg (doubled '%') whole)
          rw [doubled_append,doubled_other percent,doubled_absent plain,List.length_append,List.length_cons] at lengths
          rw [List.length_append,List.length_cons] at length
          dsimp only [Option.map_some]
          rw [List.flatMap_append,← plains_doubled,doubled_absent plain,ih (by omega) (by omega)]
        | none =>
          dsimp only [Option.map_none]
          rw [doubled_head]
          split
          next dollar =>
            have digits : '%' ∉ cs.takeWhile isDigit := fun member => absurd (List.mem_takeWhile_imp member) (by decide)
            have shorter := (List.dropWhile_suffix isDigit (l := cs)).length_le
            have shorter' := (List.dropWhile_suffix isDigit (l := doubled '%' cs)).length_le
            rw [takeWhile_doubled,dropWhile_doubled,doubled_absent digits,List.flatMap_cons]
            rw [dropWhile_doubled] at shorter'
            rw [ih (by omega) (by omega)]
            rfl
          next =>
            split
            next question =>
              rw [List.flatMap_cons,ih tail (by omega)]
              rfl
            next =>
              rw [List.flatMap_cons,ih tail (by omega)]
              simp [doubledCut,double,percent]

theorem codeSpanHasDollarNumber_doubled (cs : List Char) :
    codeSpanHasDollarNumber (doubled '%' cs) = codeSpanHasDollarNumber cs := by
  induction cs with
  | nil => rfl
  | cons c cs ih =>
    by_cases percent : c = '%'
    · subst percent
      simp [codeSpanHasDollarNumber,ih]
    · rw [doubled_other percent,codeSpanHasDollarNumber,codeSpanHasDollarNumber,doubled_head,ih]

theorem usesDollarPlaceholders_doubled (spans : List SqlSpan) :
    usesDollarPlaceholders (spans.map (onSpan '%')) = usesDollarPlaceholders spans := by
  unfold usesDollarPlaceholders
  rw [List.any_map]
  congr 1
  funext span
  simp only [Function.comp_apply,onSpan,codeSpanHasDollarNumber_doubled]
  rfl

theorem spanCuts_doubled (bare : Bool) (span : SqlSpan) :
    spanCuts (codeScan bare) (onSpan '%' span) = (spanCuts (codeScan bare) span).flatMap doubledCut := by
  unfold spanCuts
  change (if span.1 = .code then _ else _) = _
  split
  · exact codeSpanCuts_doubled bare (Nat.le_refl _) (Nat.le_refl _)
  · exact plains_doubled span.2

variable [CaseMap]

-- A tag and what stands behind it.
def tagged : List Char → List Char → Option (List Char × List Char)
  | first :: tag,'$' :: rest => if isDigit first then none else some (first :: tag ++ ['$'],rest)
  | _,_ => none

omit [CaseMap] in
theorem tagged_other {c : Char} (differs : c ≠ '$') (tag rest : List Char) : tagged tag (c :: rest) = none := by
  unfold tagged
  split
  next same => exact absurd (List.cons.inj same).1 differs
  next => rfl

theorem matchDollarQuoteOpen_tagged {cs : List Char} (tag : cs.head? ≠ some '$') :
    matchDollarQuoteOpen cs = tagged (cs.takeWhile isTag) (cs.dropWhile isTag) := by
  unfold matchDollarQuoteOpen
  split
  · exact absurd rfl tag
  · rfl

theorem tag_plain (ordinary : OrdinaryCharacters) (cs : List Char) : '%' ∉ cs.takeWhile isTag := by
  intro member
  exact ordinary.tag_ne (List.mem_takeWhile_imp member) (.inl ⟨by decide,by decide⟩) rfl

theorem matchDollarQuoteOpen_plain (ordinary : OrdinaryCharacters) {cs delimiter rest : List Char}
    (found : matchDollarQuoteOpen cs = some (delimiter,rest)) : '%' ∉ delimiter := by
  by_cases dollar : cs.head? = some '$'
  · obtain ⟨rest',rfl⟩ := List.head?_eq_some_iff.mp dollar
    cases found
    decide
  · rw [matchDollarQuoteOpen_tagged dollar] at found
    have plain := tag_plain ordinary cs
    unfold tagged at found
    split at found
    · rename_i first tag rest' taken left
      split at found
      · cases found
      · cases found
        rw [taken] at plain
        intro member
        rcases List.mem_append.mp member with inside | last
        · exact plain inside
        · exact absurd last (by decide)
    · cases found

theorem matchDollarQuoteOpen_doubled (ordinary : OrdinaryCharacters) (cs : List Char) :
    matchDollarQuoteOpen (doubled '%' cs) =
      (matchDollarQuoteOpen cs).map fun found => (found.1,doubled '%' found.2) := by
  by_cases dollar : cs.head? = some '$'
  · obtain ⟨rest,rfl⟩ := List.head?_eq_some_iff.mp dollar
    rw [doubled_other (by decide)]
    rfl
  · have dollar' : (doubled '%' cs).head? ≠ some '$' := by rwa [doubled_head]
    rw [matchDollarQuoteOpen_tagged dollar,matchDollarQuoteOpen_tagged dollar',takeWhile_doubled,dropWhile_doubled,
      doubled_absent (tag_plain ordinary cs)]
    cases cs.dropWhile isTag with
    | nil => cases cs.takeWhile isTag <;> rfl
    | cons c rest =>
      by_cases percent : c = '%'
      · subst percent
        rw [doubled_self,tagged_other (by decide),tagged_other (by decide)]
        rfl
      · rw [doubled_other percent]
        by_cases closes : c = '$'
        · subst closes
          cases cs.takeWhile isTag with
          | nil => rfl
          | cons first tag =>
            rw [tagged,tagged]
            split <;> rfl
        · rw [tagged_other closes,tagged_other closes]
          rfl

omit [CaseMap] in
theorem spanOf_doubled {kind : SqlSpanKind} {opening : List Char} (plain : '%' ∉ opening)
    (parts : List Char × List Char) :
    spanOf kind opening (both '%' parts) = (spanOf kind opening parts).map fun found => (found.1,both '%' found.2) := by
  unfold spanOf both
  rw [Option.map_some,doubled_append,doubled_absent plain]

theorem readSpan_cons (c : Char) (cs : List Char) :
    readSpan .postgreSQL (c :: cs) =
      if c = '-' ∧ cs.head? = some '-' then spanOf .lineComment ['-','-'] (Scanner.line cs.tail)
      else if c = '/' ∧ cs.head? = some '*' then spanOf .blockComment ['/','*'] (Scanner.block 1 cs.tail)
      else if c = '\'' then spanOf .singleQuoted ['\''] (Scanner.quoted '\'' cs)
      else if c = '"' then spanOf .doubleQuoted ['"'] (Scanner.quoted '"' cs)
      else if c = '$' then (matchDollarQuoteOpen cs).bind fun found =>
        spanOf .dollarQuoted ('$' :: found.1) (Scanner.through ('$' :: found.1) found.2)
      else none := by
  unfold readSpan
  split
  next same => cases same; simp
  next same => cases same; simp
  next same => cases same; simp
  next same => cases same; simp
  next same => cases same; simp
  next c' cs' notLine notBlock notQuote notDouble notDollar same =>
    cases same
    have line : ¬(c = '-' ∧ cs.head? = some '-') := by
      intro held
      obtain ⟨rest,rfl⟩ := List.head?_eq_some_iff.mp held.2
      exact notLine rest (by rw [held.1]) rfl
    have block : ¬(c = '/' ∧ cs.head? = some '*') := by
      intro held
      obtain ⟨rest,rfl⟩ := List.head?_eq_some_iff.mp held.2
      exact notBlock rest (by rw [held.1]) rfl
    have quote : c ≠ '\'' := notQuote
    have double : c ≠ '"' := notDouble
    have dollar : c ≠ '$' := notDollar
    rw [if_neg line,if_neg block,if_neg quote,if_neg double,if_neg dollar]
    simp
  next same => cases same

omit [CaseMap] in
theorem tail_doubled {d : Char} {cs : List Char} (head : cs.head? = some d) (other : d ≠ '%') :
    (doubled '%' cs).tail = doubled '%' cs.tail := by
  obtain ⟨rest,rfl⟩ := List.head?_eq_some_iff.mp head
  rw [doubled_other other]
  rfl

theorem readSpan_blind (ordinary : OrdinaryCharacters) : Blind '%' (readSpan .postgreSQL) := by
  constructor
  · intro cs
    cases cs with
    | nil => rfl
    | cons c cs =>
      by_cases percent : c = '%'
      · subst percent
        rw [doubled_self,readSpan_cons,readSpan_cons]
        rfl
      rw [doubled_other percent,readSpan_cons,readSpan_cons,doubled_head]
      split
      next dashes => rw [tail_doubled dashes.2 (by decide),line_doubled,spanOf_doubled (by decide)]
      next =>
      split
      next opens => rw [tail_doubled opens.2 (by decide),block_doubled (by decide) (by decide),spanOf_doubled (by decide)]
      next =>
      split
      next => rw [quoted_doubled (by decide),spanOf_doubled (by decide)]
      next =>
      split
      next => rw [quoted_doubled (by decide),spanOf_doubled (by decide)]
      next =>
      split
      next =>
        rw [matchDollarQuoteOpen_doubled ordinary]
        cases found : matchDollarQuoteOpen cs with
        | none => rfl
        | some parts =>
          have plain : '%' ∉ '$' :: parts.1 := by
            rw [List.mem_cons,not_or]
            exact ⟨by decide,matchDollarQuoteOpen_plain ordinary found⟩
          dsimp only [Option.map_some,Option.bind_some]
          rw [through_doubled plain,spanOf_doubled plain]
      next => rfl
  · intro cs
    rw [readSpan_cons]
    rfl

-- The generator sees the placeholders of the doubled text where it sees those of the text.
theorem seenCuts_doubled (ordinary : OrdinaryCharacters) (sql : List Char) :
    seenCuts (doubled '%' sql) = (seenCuts sql).flatMap doubledCut := by
  have spans : tokenizeSql (doubled '%' sql) .postgreSQL = (tokenizeSql sql .postgreSQL).map (onSpan '%') :=
    spans_doubled (readSpan_splits .postgreSQL) (readSpan_blind ordinary) .code sql
  unfold seenCuts
  dsimp only
  rw [spans,usesDollarPlaceholders_doubled,List.flatMap_map,List.flatMap_assoc]
  simp only [spanCuts_doubled]

theorem rewritePgPlaceholders_eq (ordinary : OrdinaryCharacters) (bound : Bool) (sql : List Char) :
    rewritePgPlaceholders (if bound then doubled '%' sql else sql) formatter =
      textOf bound formatter 0 (seenCuts sql) := by
  have plain (text : List Char) : rewritePgPlaceholders text formatter = textOf false formatter 0 (seenCuts text) := by
    rw [← rewritten_numbered]
    unfold rewritePgPlaceholders seenCuts
    dsimp only
    rw [rewritten_outcome,rewritten_outcome,spans_numbered]
  cases bound with
  | false => exact plain sql
  | true =>
    change rewritePgPlaceholders (doubled '%' sql) formatter = _
    rw [plain,seenCuts_doubled ordinary,textOf_doubled]

end Rewriting

end Scythe.PercentStyle
