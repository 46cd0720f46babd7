import Mathlib.Data.List.Basic

-- In which part of an SQL text a character stands: in its code, or in a literal,
-- a quoted name or a comment. One character after another is read, and a mark of
-- two characters is known at its second.
namespace Lexis

-- What the dialects of SQL differ in.
structure Rules where
  brackets : Bool
  backticks : Bool
  nests : Bool
  alternative : Bool
  dollars : Bool
  escapes : Bool
  nameChar : Char → Bool

-- What stands right before a position in code, where it is the start of a word.
-- A quote behind a letter of its own opens another kind of literal.
inductive Word where
  | none
  | national
  | alternative
  | escape
  | name
  deriving DecidableEq,Repr

inductive Region where
  | code (word : Word)
  | dash
  | slash
  | literal
  | escaped
  | escapedNext
  | escapedEnd
  | delimiter
  | alternative (closing : Char)
  | alternativeEnd (closing : Char)
  | quoted
  | backtick
  | bracketed
  | bracketEnd
  | tag (text : List Char)
  | dollars (tag text : List Char)
  | line
  | block (depth : Nat)
  | blockStar (depth : Nat)
  | blockSlash (depth : Nat)
  deriving DecidableEq,Repr

section
variable (rules : Rules)

def Word.next (word : Word) (c : Char) : Word :=
  if !rules.nameChar c then .none else
  match word with
  | .none =>
    if rules.alternative ∧ (c = 'n' ∨ c = 'N') then .national else
    if rules.alternative ∧ (c = 'q' ∨ c = 'Q') then .alternative else
    if rules.escapes ∧ (c = 'e' ∨ c = 'E') then .escape else .name
  | .national => if c = 'q' ∨ c = 'Q' then .alternative else .name
  | _ => .name

def ofCode (word : Word) (c : Char) : Region :=
  if c = '\'' then
    match word with
    | .alternative => .delimiter
    | .escape => .escaped
    | _ => .literal
  else if c = '"' then .quoted
  else if c = Char.ofNat 0x60 ∧ rules.backticks then .backtick
  else if c = '[' ∧ rules.brackets then .bracketed
  else if c = '-' then .dash
  else if c = '/' then .slash
  else if c = '$' ∧ rules.dollars ∧ word = .none then .tag []
  else .code (word.next rules c)

def closingOf (c : Char) : Char :=
  if c = '[' then ']' else if c = '(' then ')' else if c = '<' then '>' else
  if c = Char.ofNat 0x7b then Char.ofNat 0x7d else c

def isTagChar (text : List Char) (c : Char) : Bool :=
  rules.nameChar c && c ≠ '$' && !(text = [] && '0'.toNat ≤ c.toNat && c.toNat ≤ '9'.toNat)

def step : Region → Char → Region
  | .code word,c => ofCode rules word c
  | .dash,c => if c = '-' then .line else ofCode rules .none c
  | .slash,c => if c = '*' then .block 0 else ofCode rules .none c
  | .literal,c => if c = '\'' then .code .none else .literal
  | .escaped,c => if c = '\'' then .escapedEnd else if c = '\\' then .escapedNext else .escaped
  | .escapedNext,_ => .escaped
  | .escapedEnd,c => if c = '\'' then .escaped else ofCode rules .none c
  | .delimiter,c => .alternative (closingOf c)
  | .alternative closing,c => if c = closing then .alternativeEnd closing else .alternative closing
  | .alternativeEnd closing,c =>
    if c = '\'' then .code .none else if c = closing then .alternativeEnd closing else .alternative closing
  | .quoted,c => if c = '"' then .code .none else .quoted
  | .backtick,c => if c = Char.ofNat 0x60 then .code .none else .backtick
  | .bracketed,c => if c = ']' then .bracketEnd else .bracketed
  | .bracketEnd,c => if c = ']' then .bracketed else ofCode rules .none c
  | .tag text,c =>
    if c = '$' then .dollars text [] else
    if isTagChar rules text c then .tag (text ++ [c]) else ofCode rules .name c
  | .dollars tag text,c =>
    if ('$' :: tag ++ ['$']).isSuffixOf (text ++ [c]) then .code .none else .dollars tag (text ++ [c])
  | .line,c => if c = '\n' then .code .none else .line
  | .block depth,c =>
    if c = '*' then .blockStar depth else if c = '/' ∧ rules.nests then .blockSlash depth else .block depth
  | .blockStar depth,c =>
    if c = '/' then (match depth with | 0 => .code .none | outer + 1 => .block outer)
    else if c = '*' then .blockStar depth else .block depth
  | .blockSlash depth,c =>
    if c = '*' then .block (depth + 1) else if c = '/' then .blockSlash depth else .block depth

-- Where the character behind the text stands.
def regionAfter (text : List Char) : Region := text.foldl (step rules) (.code .none)

end

def Region.isCode : Region → Bool
  | .code _ => true
  | .dash => true
  | .slash => true
  | .escapedEnd => true
  | .bracketEnd => true
  | .tag _ => true
  | _ => false

-- Whether a word that begins here is one of its own.
def Region.startsWord : Region → Bool
  | .code word => word = .none
  | .tag _ => false
  | region => region.isCode

end Lexis
