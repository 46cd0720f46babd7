import Scythe.Lib.Text
import Scythe.Types

-- What the parser does to the text of a query before it reads it. The parsed
-- copy and the copy that the code generators scan are not always the same.
namespace Scythe
open Text

inductive MaskMode where
  | code
  | lineComment
  | blockComment
  | literal
  deriving DecidableEq,Repr

def maskChar (c : Char) : Char := if c.toNat < 128 then asciiUpper c else ' '

-- Upper case, with comments and literals blanked out. The last character of a
-- block comment that nothing closes is read as code again.
def maskPostgresForScan : MaskMode → List Char → List Char
  | _,[] => []
  | .code,'-' :: '-' :: cs => ' ' :: ' ' :: maskPostgresForScan .lineComment cs
  | .code,'/' :: '*' :: cs => ' ' :: ' ' :: maskPostgresForScan .blockComment cs
  | .code,'\'' :: cs => ' ' :: maskPostgresForScan .literal cs
  | .code,c :: cs => maskChar c :: maskPostgresForScan .code cs
  | .lineComment,'\n' :: cs => '\n' :: maskPostgresForScan .code cs
  | .lineComment,_ :: cs => ' ' :: maskPostgresForScan .lineComment cs
  | .blockComment,'*' :: '/' :: cs => ' ' :: ' ' :: maskPostgresForScan .code cs
  | .blockComment,[c] => [if c = '\'' then ' ' else maskChar c]
  | .blockComment,_ :: c :: cs => ' ' :: maskPostgresForScan .blockComment (c :: cs)
  | .literal,'\'' :: '\'' :: cs => ' ' :: ' ' :: maskPostgresForScan .literal cs
  | .literal,'\'' :: cs => ' ' :: maskPostgresForScan .code cs
  | .literal,_ :: cs => ' ' :: maskPostgresForScan .literal cs

def isAsciiAlphanumeric (c : Char) : Bool := asciiIsLower c || asciiIsUpper c || isDigit c

-- `previous` is whether a letter or digit stands right before the text.
def findKeywordFrom (keyword : List Char) (previous : Bool) : List Char → Option Nat
  | [] => none
  | c :: cs =>
    let here := match keyword.isPrefixOf? (c :: cs) with
      | some rest => !previous && !(rest.head?.map isAsciiAlphanumeric).getD false
      | none => false
    if here then some 0 else (findKeywordFrom keyword (isAsciiAlphanumeric c) cs).map (· + 1)

def findKeyword (haystack : List Char) (keyword : String) : Option Nat :=
  findKeywordFrom keyword.toList false haystack

def spaces (cs : List Char) : Nat := (cs.takeWhile isAsciiSpace).length

-- The offset of the parenthesis that closes the first one.
def closingParen : Int → List Char → Option Nat
  | _,[] => none
  | depth,c :: cs =>
    if c = '(' then (closingParen (depth + 1) cs).map (· + 1)
    else if c = ')' then
      if depth - 1 = 0 then some 0 else (closingParen (depth - 1) cs).map (· + 1)
    else (closingParen depth cs).map (· + 1)

-- Drop each `WHERE …` between the columns of `ON CONFLICT` and its `DO`. Every
-- round moves the search on, so the length of the text is fuel enough.
def stripConflictPredicates (sql mask : List Char) : Nat → Nat → Nat → List Char → List Char
  | 0,_,last,result => result ++ sql.drop last
  | fuel + 1,searchFrom,last,result =>
    match findKeyword (mask.drop searchFrom) "ON CONFLICT" with
    | none => result ++ sql.drop last
    | some found =>
      let afterOnConflict := searchFrom + found + "ON CONFLICT".length
      let opening := afterOnConflict + spaces (mask.drop afterOnConflict)
      if mask[opening]? ≠ some '(' then stripConflictPredicates sql mask fuel afterOnConflict last result else
      match closingParen 0 (mask.drop opening) with
      | none => sql
      | some offset =>
        let close := opening + offset
        let afterCols := close + 1 + spaces (mask.drop (close + 1))
        match "WHERE".toList.isPrefixOf? (mask.drop afterCols) with
        | none => stripConflictPredicates sql mask fuel (close + 1) last result
        | some rest =>
          match findKeyword rest "DO" with
          | none => stripConflictPredicates sql mask fuel (close + 1) last result
          | some doFound =>
            let doAt := afterCols + "WHERE".length + doFound
            stripConflictPredicates sql mask fuel doAt doAt (result ++ (sql.take afterCols).drop last)

def preprocessPostgresSql (sql : String) : String :=
  let mask := maskPostgresForScan .code sql.toList
  String.ofList (stripConflictPredicates sql.toList mask sql.length 0 0 [])

-- Copy a literal with its quotes, and everything else through `convert`, which
-- may take a placeholder off the front.
def outsideLiterals (convert : List Char → Option (List Char)) (inside : Bool) : Nat → List Char → List Char
  | 0,cs => cs
  | _,[] => []
  | fuel + 1,c :: cs =>
    if inside then
      match c,cs with
      | '\'','\'' :: rest => '\'' :: '\'' :: outsideLiterals convert true fuel rest
      | '\'',rest => '\'' :: outsideLiterals convert false fuel rest
      | c,rest => c :: outsideLiterals convert true fuel rest
    else if c = '\'' then c :: outsideLiterals convert true fuel cs
    else match convert (c :: cs) with
      | some digits =>
        '$' :: digits.takeWhile isDigit ++ outsideLiterals convert false fuel (digits.dropWhile isDigit)
      | none => c :: outsideLiterals convert false fuel cs

def convertPlaceholders (convert : List Char → Option (List Char)) (sql : List Char) : List Char :=
  outsideLiterals convert false sql.length sql

def oraclePlaceholder : List Char → Option (List Char)
  | ':' :: d :: cs => if isDigit d then some (d :: cs) else none
  | _ => none

def mssqlPlaceholder : List Char → Option (List Char)
  | '@' :: p :: d :: cs => if (p = 'p' ∨ p = 'P') ∧ isDigit d then some (d :: cs) else none
  | _ => none

def convertMssqlPlaceholders (sql : List Char) : List Char := convertPlaceholders mssqlPlaceholder sql

variable [CaseMap]

def upperText (sql : List Char) : List Char := (CaseMap.uppercase (String.ofList sql)).toList

def trimEndChars (cs : List Char) : List Char := (cs.reverse.dropWhile isSpace).reverse

-- The text before the last occurrence of a pattern and the text after it.
def splitLast (p cs : List Char) : Option (List Char × List Char) :=
  (splitFirst p.reverse cs.reverse).map fun parts => (parts.2.reverse,parts.1.reverse)

-- The offsets come from the upper-case copy, which need not have the length of
-- the text: `none` is a slice that is out of range or cuts a character.
def stripReturningInto (sql : List Char) : Option (List Char) :=
  match splitLast "RETURNING".toList (upperText sql) with
  | none => some sql
  | some (before,after) =>
    match splitFirst "INTO".toList after with
    | none => some sql
    | some (between,_) =>
      (splitAtByte (byteLength before + "RETURNING".utf8ByteSize + byteLength between) sql).map fun parts =>
        trimEndChars parts.1

def preprocessOracleSql (sql : List Char) : Option (List Char) :=
  (stripReturningInto sql).map (convertPlaceholders oraclePlaceholder)

def isWordChar (c : Char) : Bool := isAsciiAlphanumeric c || c = '_'

-- The text before the first occurrence of a whole word, and from it on.
def findWordFrom (word : List Char) (previous : Bool) : List Char → Option (List Char × List Char)
  | [] => none
  | c :: cs =>
    let here := match word.isPrefixOf? (c :: cs) with
      | some rest => !previous && !(rest.head?.map isWordChar).getD false
      | none => false
    if here then some ([],c :: cs)
    else (findWordFrom word (isWordChar c) cs).map fun parts => (c :: parts.1,parts.2)

def findWordPosition (text : List Char) (word : String) : Option (List Char × List Char) :=
  findWordFrom word.toList false text

def insertedColumn (part : String) : Option String :=
  let trimmed := trim part
  let name := (stripPrefix trimmed "INSERTED.").or <| (stripPrefix trimmed "inserted.").or <|
    (stripPrefix trimmed "INSERTED").or (stripPrefix trimmed "inserted")
  (name.map trim).filter (· ≠ "")

def parseInsertedColumns (outputStr : String) : String := join ", " ((split outputStr ',').filterMap insertedColumn)

def returningFromOutput (cols : String) (beforeOutput fromValues : List Char) : List Char :=
  let afterValues := trimEndChars fromValues
  let (valuesBody,trailing) := match afterValues.reverse with
    | ';' :: body => (body.reverse,[';'])
    | _ => (afterValues,[])
  trimEndChars beforeOutput ++ '\n' :: valuesBody ++ " RETURNING ".toList ++ cols.toList ++ trailing

-- `OUTPUT INSERTED.…` before VALUES becomes RETURNING behind it.
def stripAndConvertMssqlOutput (sql : List Char) : Option (List Char) :=
  let upper := upperText sql
  if ¬(splitFirst "INSERT".toList upper).isSome ∨ ¬(splitFirst "OUTPUT".toList upper).isSome then some sql else
  match findWordPosition upper "OUTPUT" with
  | none => some sql
  | some (beforeOutput,fromOutput) =>
    if ¬(splitFirst "INSERT".toList beforeOutput).isSome then some sql else
    match findWordPosition (fromOutput.drop "OUTPUT".length) "VALUES" with
    | none => some sql
    | some (output,_) =>
      let outputAt := byteLength beforeOutput
      (splitAtByte (outputAt + "OUTPUT".utf8ByteSize + byteLength output) sql).bind fun atValues =>
      (splitAtByte (outputAt + "OUTPUT".utf8ByteSize) atValues.1).bind fun afterOutput =>
      let cols := parseInsertedColumns (String.ofList afterOutput.2)
      if cols = "" then some sql else
      (splitAtByte outputAt sql).map fun atOutput => returningFromOutput cols atOutput.1 atValues.2

def preprocessMssqlSql (sql : List Char) : Option (List Char) :=
  (stripAndConvertMssqlOutput sql).map convertMssqlPlaceholders

-- The copy for the code generators and the copy that is parsed.
structure Copies where
  codegen : String
  parsed : String
  deriving DecidableEq,Repr

def preprocess (dialect : SqlDialect) (sql : String) : Option Copies :=
  match dialect with
  | .oracle => (preprocessOracleSql sql.toList).map fun processed => ⟨String.ofList processed,String.ofList processed⟩
  | .msSql => (preprocessMssqlSql sql.toList).map fun parsed =>
    ⟨String.ofList (convertMssqlPlaceholders sql.toList),String.ofList parsed⟩
  | .postgreSQL => some ⟨sql,preprocessPostgresSql sql⟩
  | _ => some ⟨sql,sql⟩

-- What the author wrote above the statement.
structure Header where
  name : String
  command : QueryCommand
  annotations : Annotations

-- FLUSH is no statement of its own unless it stands alone.
def soleStatement : List (Option Statement) → Option Statement
  | [only] => some (only.getD .other)
  | statements =>
    match statements.reduceOption with
    | [only] => some only
    | _ => none

-- Reads one text with one dialect's grammar, statement by statement; a FLUSH is
-- `none`. The grammar itself is not part of the program.
abbrev SqlParser := SqlDialect → String → Option (List (Option Statement))

-- `none` is a failure of any kind.
def parseQuery (parser : SqlParser) (dialect : SqlDialect) (header : Header) (body : String) : Option ParsedQuery := do
  let sql := trim body
  if sql = "" then none else
  let copies ← preprocess dialect sql
  let stmt ← soleStatement (← parser dialect copies.parsed)
  return ⟨header.name,header.command,copies.codegen,stmt,header.annotations⟩

end Scythe
