import Scythe.Preprocess

-- What is done to the text of a schema before the parser reads it: it is cut into
-- statements, those that the parser cannot read are taken out, and some clauses of
-- the others are rewritten.
namespace Scythe
open Text

-- What the scanners of quotes and comments are in.
inductive Quoting where
  | code
  | lineComment
  | blockComment
  | singleQuote
  | doubleQuote
  deriving DecidableEq,Repr

-- One step over quotes and comments: what is read, what the scanner is in then, and
-- what is left. `none` is a character of code.
def quotedStep (mode : Quoting) : List Char → Option (List Char × Quoting × List Char)
  | [] => none
  | c :: cs =>
    match mode with
    | .lineComment => some ([c],if c = '\n' then .code else .lineComment,cs)
    | .blockComment =>
      if c = '*' ∧ cs.head? = some '/' then some (['*','/'],.code,cs.tail) else some ([c],.blockComment,cs)
    | .singleQuote =>
      if c = '\'' ∧ cs.head? = some '\'' then some (['\'','\''],.singleQuote,cs.tail)
      else some ([c],if c = '\'' then .code else .singleQuote,cs)
    | .doubleQuote => some ([c],if c = '"' then .code else .doubleQuote,cs)
    | .code =>
      if c = '\'' then some ([c],.singleQuote,cs)
      else if c = '"' then some ([c],.doubleQuote,cs)
      else if c = '-' ∧ cs.head? = some '-' then some (['-','-'],.lineComment,cs.tail)
      else if c = '/' ∧ cs.head? = some '*' then some (['/','*'],.blockComment,cs.tail)
      else none

def unlessBlank (current : List Char) : List (List Char) := if trimChars current = [] then [] else [current]

-- Every round reads at least one character.
def splitStatementsFrom : Nat → Quoting → List Char → List Char → List (List Char)
  | 0,_,current,_ => unlessBlank current
  | _,_,current,[] => unlessBlank current
  | fuel + 1,mode,current,c :: cs =>
    match quotedStep mode (c :: cs) with
    | some (read,next,rest) => splitStatementsFrom fuel next (current ++ read) rest
    | none =>
      if c = ';' then (current ++ [c]) :: splitStatementsFrom fuel mode [] cs
      else splitStatementsFrom fuel mode (current ++ [c]) cs

def splitTopLevelStatements (sql : List Char) : List (List Char) := splitStatementsFrom sql.length .code [] sql

-- The lines of a text with the newlines that end them.
def linesInclusive : List Char → List Char → List (List Char)
  | line,[] => if line = [] then [] else [line]
  | line,c :: cs => if c = '\n' then (line ++ [c]) :: linesInclusive [] cs else linesInclusive (line ++ [c]) cs

def isSlashLine (line : List Char) : Bool := trimChars line = ['/']

def splitAtSlashLines : List Char → List (List Char) → List (List Char)
  | block,[] => unlessBlank block
  | block,line :: lines =>
    if isSlashLine line then unlessBlank block ++ splitAtSlashLines [] lines else splitAtSlashLines (block ++ line) lines

def splitOracleSlashStatements (sql : List Char) : List (List Char) := splitAtSlashLines [] (linesInclusive [] sql)

def isOracleSlashScript (dialect : SqlDialect) (sql : List Char) : Bool :=
  dialect = .oracle && (linesInclusive [] sql).any isSlashLine

def rawStatements (dialect : SqlDialect) (sql : List Char) : List (List Char) :=
  if isOracleSlashScript dialect sql then splitOracleSlashStatements sql else splitTopLevelStatements sql

-- Every round takes a comment off the front.
def stripLeadingCommentsFrom : Nat → List Char → List Char
  | 0,cs => cs
  | fuel + 1,cs =>
    let rest := cs.dropWhile isSpace
    if ['-','-'].isPrefixOf rest then
      match splitFirst ['\n'] rest with
      | some (_,after) => stripLeadingCommentsFrom fuel after
      | none => []
    else if ['/','*'].isPrefixOf rest then
      match splitFirst ['*','/'] rest with
      | some (_,after) => stripLeadingCommentsFrom fuel after
      | none => []
    else rest

def stripLeadingComments (cs : List Char) : List Char := stripLeadingCommentsFrom (cs.length + 1) cs

-- How many characters the rest of a literal or a quoted name takes. A backslash
-- escapes in every literal.
def quoteEnd (quote : Char) : List Char → Nat
  | [] => 0
  | c :: cs =>
    if quote = '\'' ∧ c = '\\' then
      match cs with
      | [] => 1
      | _ :: rest => 2 + quoteEnd quote rest
    else if c = quote then
      match cs with
      | [] => 1
      | d :: rest => if d = quote then 2 + quoteEnd quote rest else 1
    else 1 + quoteEnd quote cs

-- The same of a block comment, `depth` comments inside the outermost.
def blockEnd (depth : Nat) : List Char → Nat
  | [] => 0
  | [_] => 1
  | c :: d :: cs =>
    if c = '/' ∧ d = '*' then 2 + blockEnd (depth + 1) cs
    else if c = '*' ∧ d = '/' then (if depth = 0 then 2 else 2 + blockEnd (depth - 1) cs)
    else 1 + blockEnd depth (d :: cs)

-- The tag of a dollar quote, behind its first sign.
def dollarQuoteDelimiter (cs : List Char) : Option (List Char) :=
  (splitFirst ['$'] cs).bind fun parts => if parts.1.all isWordChar then some parts.1 else none

def dollarEnd (tag cs : List Char) : Nat :=
  match splitFirst ('$' :: tag ++ ['$']) cs with
  | some (body,_) => body.length + tag.length + 2
  | none => cs.length

def delimitedLength : List Char → Option Nat
  | '\'' :: cs => some (1 + quoteEnd '\'' cs)
  | '"' :: cs => some (1 + quoteEnd '"' cs)
  | '-' :: '-' :: cs => some (2 + (cs.takeWhile (· ≠ '\n')).length)
  | '/' :: '*' :: cs => some (2 + blockEnd 0 cs)
  | '$' :: cs =>
    (dollarQuoteDelimiter cs).map fun tag => tag.length + 2 + dollarEnd tag (cs.drop (tag.length + 1))
  | _ => none

def sqlOutsideMaskFrom : Nat → List Char → List Bool
  | 0,_ => []
  | _,[] => []
  | fuel + 1,c :: cs =>
    match delimitedLength (c :: cs) with
    | some length => List.replicate length false ++ sqlOutsideMaskFrom fuel ((c :: cs).drop length)
    | none => true :: sqlOutsideMaskFrom fuel cs

-- Which characters stand outside of literals, quoted names and comments.
def sqlOutsideMask (sql : List Char) : List Bool := sqlOutsideMaskFrom sql.length sql

def outsideAt (outside : List Bool) (index : Nat) : Bool := outside[index]?.getD false

def wordCharAt (sql : List Char) (index : Nat) : Bool := (sql[index]?.map isWordChar).getD false

def keywordAt (sql : List Char) (index : Nat) (keyword : String) : Bool :=
  ((sql.drop index).take keyword.length).map asciiUpper = keyword.toList &&
    !(0 < index && wordCharAt sql (index - 1)) && !wordCharAt sql (index + keyword.length)

-- The first place from an index on that is neither hidden nor white space.
def skipHidden (sql : List Char) (outside : List Bool) (index : Nat) : Nat :=
  index + (((sql.zip outside).drop index).takeWhile fun marked => !marked.2 || isAsciiSpace marked.1).length

def keywordsFollow (sql : List Char) (outside : List Bool) : Nat → List String → Bool
  | _,[] => true
  | index,keyword :: keywords =>
    let cursor := skipHidden sql outside index
    outsideAt outside cursor && keywordAt sql cursor keyword &&
      keywordsFollow sql outside (cursor + keyword.length) keywords

def findKeywordSequence (sql : List Char) (outside : List Bool) (first : String) (keywords : List String) : Option Nat :=
  (List.range sql.length).find? fun index =>
    outsideAt outside index && keywordAt sql index first && keywordsFollow sql outside (index + first.length) keywords

def findCharOutside (sql : List Char) (outside : List Bool) (target : Char) (from' : Nat) : Option Nat :=
  (List.range sql.length).find? fun index =>
    decide (from' ≤ index) && decide (sql[index]? = some target) && outsideAt outside index

def matchingOffset : Nat → List (Char × Bool) → Option Nat
  | _,[] => none
  | depth,(c,outside) :: rest =>
    if outside ∧ c = '(' then (matchingOffset (depth + 1) rest).map (· + 1)
    else if outside ∧ c = ')' then
      (if depth = 0 then none else if depth = 1 then some 0 else (matchingOffset (depth - 1) rest).map (· + 1))
    else (matchingOffset depth rest).map (· + 1)

def matchingParenthesis (sql : List Char) (outside : List Bool) (opening : Nat) : Option Nat :=
  (matchingOffset 0 ((sql.zip outside).drop opening)).map (opening + ·)

def splitCommas : Nat → List Char → List (Char × Bool) → List (List Char)
  | _,field,[] => [field]
  | depth,field,(c,outside) :: rest =>
    if outside ∧ (c = '(' ∨ c = '[') then splitCommas (depth + 1) (field ++ [c]) rest
    else if outside ∧ (c = ')' ∨ c = ']') then splitCommas (depth - 1) (field ++ [c]) rest
    else if outside ∧ c = ',' ∧ depth = 0 then field :: splitCommas depth [] rest
    else splitCommas depth (field ++ [c]) rest

def splitTopLevelCommas (value : List Char) : List (List Char) := splitCommas 0 [] (value.zip (sqlOutsideMask value))

-- Where the parentheses of the arguments and of the table of a function stand.
structure ReturnsTable where
  functionOpen : Nat
  functionClose : Nat
  tableOpen : Nat
  tableClose : Nat
  deriving DecidableEq,Repr

def findReturnsTable (sql : List Char) (outside : List Bool) : Option ReturnsTable := do
  let marker ← findKeywordSequence sql outside "RETURNS" ["TABLE"]
  let tableOpen ← findCharOutside sql outside '(' marker
  let tableClose ← matchingParenthesis sql outside tableOpen
  let functionOpen ← (findCharOutside sql outside '(' 0).filter (· < marker)
  let functionClose ← matchingParenthesis sql outside functionOpen
  if functionClose > marker then none else some ⟨functionOpen,functionClose,tableOpen,tableClose⟩

def slice (sql : List Char) (start stop : Nat) : List Char := (sql.take stop).drop start

-- The columns of the table become arguments of the function.
def returnsTableRewritten (sql : List Char) (clause : ReturnsTable) : List Char :=
  let columns := (splitTopLevelCommas (slice sql (clause.tableOpen + 1) clause.tableClose)).map fun column =>
    "OUT ".toList ++ trimChars column
  let existing := trimChars (slice sql (clause.functionOpen + 1) clause.functionClose)
  let separator := if existing = [] then [] else ", ".toList
  sql.take clause.functionClose ++ separator ++ List.intercalate ", ".toList columns ++
    slice sql clause.functionClose (clause.functionClose + 1) ++ sql.drop (clause.tableClose + 1)

def rewriteReturnsTable (sql : List Char) : List Char :=
  match findReturnsTable sql (sqlOutsideMask sql) with
  | none => sql
  | some clause => returnsTableRewritten sql clause

-- What a scanner reads in one step, and what it writes for it.
structure Copied where
  read : List Char
  written : List Char
  deriving DecidableEq,Repr

def skipSpaces (cs : List Char) : List Char := cs.dropWhile isAsciiSpace

def digitsBehind (cs : List Char) : Option (List Char) :=
  if (skipSpaces cs).takeWhile isDigit = [] then none else some (skipSpaces ((skipSpaces cs).dropWhile isDigit))

def behindChar (c : Char) : List Char → Option (List Char)
  | [] => none
  | d :: rest => if d = c then some rest else none

-- The text behind `seed, step)`.
def behindSeedAndStep (cs : List Char) : Option (List Char) := do
  let behindSeed ← digitsBehind cs
  let step ← behindChar ',' behindSeed
  let behindStep ← digitsBehind step
  behindChar ')' behindStep

def matchesIdentityKeyword (cs : List Char) : Bool := (cs.take 8).map asciiUpper = "IDENTITY".toList

-- What is done with the keyword IDENTITY in front of a text.
def identityStep (cs : List Char) : Copied × List Char :=
  let keyword := cs.take 8
  let rest := cs.drop 8
  match skipSpaces rest with
  | '(' :: inner =>
    match behindSeedAndStep inner with
    | some after => (⟨cs.take (cs.length - after.length),[]⟩,after)
    | none => (⟨cs.take (cs.length - inner.length),"IDENTITY(".toList⟩,inner)
  | _ => (⟨keyword,keyword⟩,rest)

-- `previous` is whether a letter, a digit or an underscore stands right before.
def identityPieces : Nat → Quoting → Bool → List Char → List Copied
  | 0,_,_,_ => []
  | _,_,_,[] => []
  | fuel + 1,mode,previous,c :: cs =>
    match quotedStep mode (c :: cs) with
    | some (read,next,rest) => ⟨read,read⟩ :: identityPieces fuel next ((read.getLast?.map isWordChar).getD false) rest
    | none =>
      if matchesIdentityKeyword (c :: cs) ∧ previous = false then
        let (piece,rest) := identityStep (c :: cs)
        piece :: identityPieces fuel mode ((piece.read.getLast?.map isWordChar).getD false) rest
      else ⟨[c],[c]⟩ :: identityPieces fuel mode (isWordChar c) cs

def stripIdentityPatterns (sql : List Char) : List Char := (identityPieces sql.length .code false sql).flatMap Copied.written

variable [CaseMap]

-- What becomes of one statement of a schema.
inductive Handling where
  | kept (text : List Char)
  | domain (text : List Char)
  | dropped
  deriving DecidableEq,Repr

def isCreateTrigger (upper : List Char) : Bool :=
  "CREATE TRIGGER".toList.isPrefixOf upper || "CREATE OR REPLACE TRIGGER".toList.isPrefixOf upper

def rewriteStatement (dialect : SqlDialect) (raw : List Char) : List Char :=
  let rewritten := if dialect = .postgreSQL then rewriteReturnsTable raw else raw
  let added := if dialect = .postgreSQL ∨ dialect = .msSql then stripIdentityPatterns rewritten else rewritten
  if added.getLast? = some ';' then added else added ++ [';']

def isBlankOrComment (trimmed : List Char) : Bool :=
  trimmed = [] || ['-','-'].isPrefixOf trimmed && !trimmed.contains '\n'

def handleStatement (dialect : SqlDialect) (raw : List Char) : Handling :=
  if isBlankOrComment (trimChars raw) then .kept raw else
  let noComments := stripLeadingComments (trimChars raw)
  let upper := upperText noComments
  if "CREATE DOMAIN".toList.isPrefixOf upper then .domain noComments
  else if "CREATE SCHEMA".toList.isPrefixOf upper then .dropped
  else if dialect = .oracle ∧ "CREATE SEQUENCE".toList.isPrefixOf upper ∨
      (dialect = .postgreSQL ∨ dialect = .oracle) ∧ isCreateTrigger upper then .dropped
  else .kept (rewriteStatement dialect raw)

-- The text that is left, and the domains that are read from what is taken out.
def extractUnsupportedStatements (dialect : SqlDialect) (sql : List Char) : List Char × List (List Char) :=
  let handled := (rawStatements dialect sql).map (handleStatement dialect)
  (handled.flatMap fun handling => match handling with | .kept text => text | _ => [],
    handled.filterMap fun handling => match handling with | .domain text => some text | _ => none)

end Scythe
