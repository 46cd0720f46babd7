import Scythe.Verification
import Scythe.Rewrite

-- Migration of sqlc query files.
namespace Scythe.Migrate
open Text

-- The classes `\w` and `\d` of the regular expressions, which cover all of
-- Unicode.
class WordClasses where
  isWord : Char → Bool
  isDecimal : Char → Bool

def isAsciiWord (c : Char) : Bool := asciiIsLower c || asciiIsUpper c || isDigit c || c = '_'

structure WordClasses.Lawful (classes : WordClasses) : Prop where
  ascii : ∀ c : Char,c.toNat < 128 → classes.isWord c = isAsciiWord c
  space : ∀ c : Char,isSpace c → classes.isWord c = false
  decimal : ∀ c : Char,c.toNat < 128 → classes.isDecimal c = isDigit c
  decimalWord : ∀ c : Char,classes.isDecimal c = true → classes.isWord c = true

def sqlcCommands : List String := ["one","many","exec","execrows","execresult","batchone","batchmany","batchexec",
  "copyfrom"]

-- `\s*$`: as far as white space goes, and back to the end of a line.
def lineEnd (cs : List Char) : Option (List Char) :=
  if cs.dropWhile isSpace = [] then some [] else
  (splitFirst ['\n'] (cs.takeWhile isSpace).reverse).map fun parts =>
    '\n' :: parts.1.reverse ++ cs.dropWhile isSpace

def commandAt (cs : List Char) : Option (String × List Char) :=
  sqlcCommands.findSome? fun command =>
    ((command.toList.isPrefixOf? cs).bind lineEnd).map fun rest => (command,rest)

-- The long s is an s where case does not matter.
def foldCase (c : Char) : Char := if c.toNat = 0x17f then 's' else asciiLower c

def caseless (word cs : List Char) : Option (List Char) :=
  if (cs.take word.length).map foldCase = word then some (cs.drop word.length) else none

-- `--\s*name\s*:\s*.*$`, in any case.
def looseNameAt (cs : List Char) : Option (List Char) := do
  let name ← "--".toList.isPrefixOf? cs
  let colon ← caseless "name".toList (name.dropWhile isSpace)
  let value ← ":".toList.isPrefixOf? (colon.dropWhile isSpace)
  return (value.dropWhile isSpace).dropWhile (· ≠ '\n')

section
variable [WordClasses]

-- `--\s*name:\s*(\w+)\s+:(one|...)\s*$`.
def annotationAt (cs : List Char) : Option ((List Char × String) × List Char) := do
  let name ← "--".toList.isPrefixOf? cs
  let value ← "name:".toList.isPrefixOf? (name.dropWhile isSpace)
  let word := value.dropWhile isSpace
  let gap := word.dropWhile WordClasses.isWord
  let colon ← ":".toList.isPrefixOf? (gap.dropWhile isSpace)
  let (command,rest) ← commandAt colon
  if word.takeWhile WordClasses.isWord = [] ∨ gap.takeWhile isSpace = [] then none
  else some ((word.takeWhile WordClasses.isWord,command),rest)

end

-- A piece of a query file: what is left of the file where its annotation starts,
-- what the annotation says and the text up to the next one.
structure Piece where
  left : List Char
  name : List Char
  returnType : String
  body : List Char
  deriving DecidableEq,Repr

section
variable [WordClasses]

-- The text before the first annotation, and the pieces. An annotation ends before
-- a newline, or with the file, so that no line starts where it ends.
def piecesWithin : Nat → Bool → List Char → List Char × List Piece
  | 0,_,_ => ([],[])
  | _,_,[] => ([],[])
  | fuel + 1,starts,c :: cs =>
    match if starts then annotationAt (c :: cs) else none with
    | some ((name,returnType),rest) =>
      let (body,pieces) := piecesWithin fuel false rest
      ([],⟨c :: cs,name,returnType,body⟩ :: pieces)
    | none =>
      let (before,pieces) := piecesWithin fuel (c = '\n') cs
      (c :: before,pieces)

def pieces (input : List Char) : List Char × List Piece := piecesWithin input.length true input

end

-- What is left of the text where something like an annotation starts, and what is
-- left behind it.
def looseNamesWithin : Nat → Bool → List Char → List (List Char × List Char)
  | 0,_,_ => []
  | _,_,[] => []
  | fuel + 1,starts,c :: cs =>
    match if starts then looseNameAt (c :: cs) else none with
    | some rest => (c :: cs,rest) :: looseNamesWithin fuel false rest
    | none => looseNamesWithin fuel (c = '\n') cs

def looseNames (input : List Char) : List (List Char × List Char) := looseNamesWithin input.length true input

-- The first place where a pattern matches: the text before it, what was read and
-- the text after it.
def find {α : Type} (pattern : List Char → Option (α × List Char)) : List Char → Option (List Char × α × List Char)
  | [] => none
  | c :: cs =>
    match pattern (c :: cs) with
    | some (found,rest) => some ([],found,rest)
    | none => (find pattern cs).map fun parts => (c :: parts.1,parts.2)

-- `(?i)sqlc\s*\.\s*n?arg\s*\(`
def looseCallAt (cs : List Char) : Option (Unit × List Char) := do
  let dot ← caseless "sqlc".toList cs
  let arg ← ".".toList.isPrefixOf? (dot.dropWhile isSpace)
  let paren ← (caseless "narg".toList (arg.dropWhile isSpace)).or (caseless "arg".toList (arg.dropWhile isSpace))
  let rest ← "(".toList.isPrefixOf? (paren.dropWhile isSpace)
  return ((),rest)

inductive MigrateError where
  | unrecognisedName (got : List Char)
  | unrecognisedParameter (got : List Char)
  deriving DecidableEq,Repr

section
variable [WordClasses]

-- `sqlc\.arg\((\w+)\)`, and the same with `narg`.
def callAt (function : String) (cs : List Char) : Option (List Char × List Char) := do
  let name ← (function ++ "(").toList.isPrefixOf? cs
  let rest ← ")".toList.isPrefixOf? (name.dropWhile WordClasses.isWord)
  if name.takeWhile WordClasses.isWord = [] then none else some (name.takeWhile WordClasses.isWord,rest)

def nextCall (body : List Char) : Option (List Char × List Char × List Char) :=
  match find (callAt "sqlc.arg") body,find (callAt "sqlc.narg") body with
  | some arg,some narg => if arg.1.length ≤ narg.1.length then some arg else some narg
  | some arg,none => some arg
  | none,some narg => some narg
  | none,none => none

-- `\$(\d+)`, as far as the digits are a number. Digits are no dollar signs, so that
-- the next match may be looked for among them.
def positionals : List Char → List Nat
  | [] => []
  | c :: cs =>
    if c = '$' then (parseUnsigned 64 (String.ofList (cs.takeWhile WordClasses.isDecimal))).toList ++ positionals cs
    else positionals cs

def maxPositional (body : List Char) : Nat := (positionals body).foldl max 0

def placeholder (number : Nat) : List Char := '$' :: (toString number).toList

structure Numbered where
  paramNames : List (List Char)
  renamed : Nat
  body : List Char
  deriving DecidableEq,Repr

-- The next number is the one after the names so far.
def numberFor (maxPositional : Nat) (paramNames : List (List Char)) (name : List Char) : Nat × List (List Char) :=
  match paramNames.findIdx? fun other => other = name with
  | some position => (maxPositional + 1 + position,paramNames)
  | none => (maxPositional + 1 + paramNames.length,paramNames ++ [name])

def numberedWithin (maxPositional : Nat) : Nat → Numbered → Numbered
  | 0,state => state
  | fuel + 1,state =>
    match nextCall state.body with
    | none => state
    | some (before,name,rest) =>
      let (number,paramNames) := numberFor maxPositional state.paramNames name
      numberedWithin maxPositional fuel ⟨paramNames,state.renamed + 1,before ++ placeholder number ++ rest⟩

-- Every replacement is of one call, and the body has room for fewer calls than
-- characters.
def numbered (body : List Char) : Numbered := numberedWithin (maxPositional body) body.length ⟨[],0,body⟩

def paramLines (maxPositional : Nat) (paramNames : List (List Char)) : List Char :=
  paramNames.zipIdx.flatMap fun param =>
    "-- @param ".toList ++ placeholder (maxPositional + 1 + param.2) ++ ' ' :: param.1 ++ ['\n']

def Piece.converted (piece : Piece) : List Char :=
  "-- @name ".toList ++ piece.name ++ '\n' :: "-- @returns :".toList ++ piece.returnType.toList ++
    '\n' :: paramLines (maxPositional piece.body) (numbered piece.body).paramNames ++ (numbered piece.body).body

structure Converted where
  text : List Char
  queries : Nat
  params : Nat
  deriving DecidableEq,Repr

def convertQueryContent (input : List Char) : Except MigrateError Converted :=
  let (before,found) := pieces input
  match (looseNames input).find? fun loose => loose.1 ∉ found.map Piece.left with
  | some (left,rest) => .error (.unrecognisedName (trimChars (left.take (left.length - rest.length))))
  | none =>
    if found = [] then .ok ⟨input,0,0⟩ else
    let output := before ++ found.flatMap Piece.converted
    match find looseCallAt output with
    | some (before,_,rest) =>
      .error (.unrecognisedParameter ((output.drop before.length).take (output.length - before.length - rest.length)))
    | none => .ok ⟨output,found.length,(found.map fun piece => (numbered piece.body).renamed).sum⟩

end

end Scythe.Migrate
