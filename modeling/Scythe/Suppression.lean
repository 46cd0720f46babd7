import Mathlib.Data.List.Chain
import Scythe.Lib.Text

-- Which findings of an audit are suppressed. The annotations are counted by the
-- semicolons of the text and the findings by the statements that parse.
namespace Scythe.Suppression
open Text

def annotationPrefix : List Char := "-- scythe-audit: ignore[".toList

def isValidRuleId (s : List Char) : Bool :=
  match s with
  | [] => false
  | c :: cs => asciiIsUpper c && cs.all fun c => asciiIsUpper c || isDigit c || c == '-'

def tryParseAnnotation (trimmed : List Char) : Option (List (List Char)) :=
  (annotationPrefix.isPrefixOf? trimmed).bind fun rest => (splitFirst [']'] rest).bind fun parts =>
    if parts.1 = [] then none else
    let ids := (splitChars ',' parts.1).map trimChars
    if ids.all isValidRuleId then some ids else none

-- Rules by the number of the statement they are suppressed on. What is entered twice adds up.
structure SuppressionSet where
  byStatement : List (Nat × List (List Char))

structure Scan where
  pending : List (List Char)
  stmtIndex : Nat
  byStatement : List (Nat × List (List Char))

def Scan.line (s : Scan) (line : List Char) : Scan :=
  let trimmed := trimChars line
  if trimmed = [] then { s with pending := [] } else
  match tryParseAnnotation trimmed with
  | some ids => { s with pending := s.pending ++ ids }
  | none =>
    if ['-','-'].isPrefixOf trimmed then s else
    -- A content line, of the statement that the semicolons so far number.
    { pending := []
      stmtIndex := s.stmtIndex + line.count ';'
      byStatement := if s.pending = [] then s.byStatement else s.byStatement ++ [(s.stmtIndex,s.pending)] }

def SuppressionSet.parse (sql : List Char) : SuppressionSet :=
  ⟨((splitChars '\n' sql).foldl Scan.line ⟨[],0,[]⟩).byStatement⟩

def SuppressionSet.isSuppressed (set : SuppressionSet) (ruleId : List Char) (stmtIndex : Nat) : Bool :=
  set.byStatement.any fun entry => entry.1 == stmtIndex && entry.2.contains ruleId

def SuppressionSet.isEmpty (set : SuppressionSet) : Bool := set.byStatement.isEmpty

-- The newline that ends a line comment is a lexeme of its own.
inductive LexemeKind where
  | space
  | newline
  | lineComment
  | blockComment
  | semicolon
  | code
deriving DecidableEq

def LexemeKind.isTrivia : LexemeKind → Bool
  | .space | .newline | .lineComment | .blockComment => true
  | .semicolon | .code => false

structure Lexeme where
  kind : LexemeKind
  text : List Char

-- The parser of SQL. It reads a statement from its first token on and says how
-- many lexemes it went through, also where it fails.
structure SqlParser (Statement : Type) where
  tokenize : List Char → Except (List Char) (List Lexeme)
  spells : ∀ {sql lexemes},tokenize sql = .ok lexemes → lexemes.flatMap Lexeme.text = sql
  parseStatement : List Lexeme → Except (List Char) Statement × Nat
  advances : ∀ {lexemes statement read},parseStatement lexemes = (.ok statement,read) → 0 < read

-- A statement with all that stands before its first token.
structure Parsed (Statement : Type) where
  statement : Statement
  leading : List Lexeme

structure StatementParseFailure where
  line : Nat
  message : List Char

def startLine (leading : List Lexeme) : Nat := (leading.flatMap Lexeme.text).count '\n' + 1

section
variable {Statement : Type} (parser : SqlParser Statement)

def passedOver (lexeme : Lexeme) : Bool := lexeme.kind.isTrivia || lexeme.kind == .semicolon

-- Every round takes a lexeme, so the length of the rest is fuel enough.
def parseFrom : Nat → List Lexeme → List Lexeme → List (Parsed Statement) × List StatementParseFailure
  | 0,_,_ => ([],[])
  | fuel + 1,leading,rest =>
    let leading := leading ++ rest.takeWhile passedOver
    let rest := rest.dropWhile passedOver
    if rest = [] then ([],[]) else
    match parser.parseStatement rest with
    | (.ok statement,read) =>
      let later := parseFrom fuel (leading ++ rest.take read) (rest.drop read)
      (⟨statement,leading⟩ :: later.1,later.2)
    | (.error message,read) =>
      let skipped := rest.take read ++ (rest.drop read).takeWhile fun lexeme => lexeme.kind != .semicolon
      let later := parseFrom fuel (leading ++ skipped) ((rest.drop read).dropWhile fun lexeme => lexeme.kind != .semicolon)
      (later.1,⟨startLine leading,message⟩ :: later.2)

def parseStatementsLenient (sql : List Char) : List (Parsed Statement) × List StatementParseFailure :=
  match parser.tokenize sql with
  | .error message => ([],[⟨1,message⟩])
  | .ok lexemes => parseFrom parser lexemes.length [] lexemes

structure Violation where
  ruleId : List Char
  message : List Char

structure Finding where
  ruleId : List Char
  message : List Char
  line : Nat

def skips (suppressions : SuppressionSet) (ignoreSuppressions : Bool) (ruleId : List Char) (idx : Nat) : Bool :=
  !ignoreSuppressions && !suppressions.isEmpty && suppressions.isSuppressed ruleId idx

def failureFinding (failure : StatementParseFailure) : Finding where
  ruleId := "SC-PARSE01".toList
  message := "failed to parse statement at line ".toList ++ (toString failure.line).toList ++ ": ".toList ++ failure.message
  line := failure.line

def runSecurityRulesOverSql (rules : List (Statement → List Violation)) (ignoreSuppressions : Bool) (sql : List Char) :
    List Finding :=
  let suppressions := SuppressionSet.parse sql
  let parsed := parseStatementsLenient parser sql
  parsed.2.map failureFinding ++ parsed.1.zipIdx.flatMap fun entry => rules.flatMap fun checkQuery =>
    (checkQuery entry.1.statement).filterMap fun violation =>
      if skips suppressions ignoreSuppressions violation.ruleId entry.2 then none
      else some ⟨violation.ruleId,violation.message,startLine entry.1.leading⟩

end

-- The rules that the comment lines directly above a line name, the nearest line first.
def namedAbove : List (List Char) → List (List Char)
  | [] => []
  | line :: above =>
    let trimmed := trimChars line
    if trimmed = [] then [] else
    match tryParseAnnotation trimmed with
    | some ids => namedAbove above ++ ids
    | none => if ['-','-'].isPrefixOf trimmed then namedAbove above else []

def isContent (line : List Char) : Bool := trimChars line != [] && !(['-','-'].isPrefixOf (trimChars line))

def semicolonsIn (lines : List (List Char)) : Nat := (lines.filter isContent).flatten.count ';'

-- A line of the text that a rule is named above, and the semicolons before it.
def NamedAt (lines : List (List Char)) (rule : List Char) (semicolons : Nat) : Prop :=
  ∃ before line after,lines = before ++ line :: after ∧ isContent line ∧ rule ∈ namedAbove before.reverse ∧
    semicolonsIn before = semicolons

-- Nothing but blanks stands before it on its line.
def OwnLine (earlier : List Lexeme) : Prop :=
  ∀ lexeme,(earlier.filter fun lexeme => lexeme.kind != .space).getLast? = some lexeme → lexeme.kind = .newline

-- No two line ends with only blanks between them.
def Unbroken (lexemes : List Lexeme) : Prop :=
  (lexemes.filter fun lexeme => lexeme.kind != .space).IsChain fun left right =>
    ¬(left.kind = .newline ∧ right.kind = .newline)

-- A line comment that names the rule stands in the block of comments right before a statement.
def AnnotatedBefore (leading : List Lexeme) (rule : List Char) : Prop :=
  ∃ earlier comment later ids,leading = earlier ++ comment :: later ∧ comment.kind = .lineComment ∧ OwnLine earlier ∧
    (∀ lexeme ∈ later,lexeme.kind.isTrivia) ∧ Unbroken later ∧
    tryParseAnnotation (trimChars comment.text) = some ids ∧ rule ∈ ids

-- The two counters of the audit agree wherever a rule is named: above a line with as many
-- semicolons before it as there are statements before the one the rule is named for.
structure InStep {Statement : Type} (lines : List (List Char)) (statements : List (Parsed Statement)) : Prop where
  counted : ∀ {idx stmt rule},statements[idx]? = some stmt → AnnotatedBefore stmt.leading rule → NamedAt lines rule idx
  landed : ∀ {idx stmt rule},statements[idx]? = some stmt → NamedAt lines rule idx → AnnotatedBefore stmt.leading rule

theorem annotation_comment {trimmed : List Char} {ids : List (List Char)} (read : tryParseAnnotation trimmed = some ids) :
    ['-','-'].isPrefixOf trimmed := by
  obtain ⟨rest,opened,_⟩ := Option.bind_eq_some_iff.mp read
  have whole := List.isPrefixOf?_eq_some_iff_append_eq.mp opened
  rw [← whole]
  rfl

theorem semicolonsIn_snoc (lines : List (List Char)) (line : List Char) :
    semicolonsIn (lines ++ [line]) = semicolonsIn lines + if isContent line then line.count ';' else 0 := by
  unfold semicolonsIn
  rw [List.filter_append,List.flatten_append,List.count_append]
  cases content : isContent line <;> simp [content]

theorem namedAt_snoc (lines : List (List Char)) (line rule : List Char) (semicolons : Nat) :
    NamedAt (lines ++ [line]) rule semicolons ↔ NamedAt lines rule semicolons ∨
      isContent line ∧ rule ∈ namedAbove lines.reverse ∧ semicolonsIn lines = semicolons := by
  constructor
  · rintro ⟨before,other,after,equal,facts⟩
    rcases List.eq_nil_or_concat after with rfl | ⟨after,last,rfl⟩
    · obtain ⟨rfl,same⟩ := List.append_inj' equal rfl
      cases same
      exact Or.inr facts
    · have shorter : lines ++ [line] = (before ++ other :: after) ++ [last] := by simpa using equal
      obtain ⟨rfl,_⟩ := List.append_inj' shorter rfl
      exact Or.inl ⟨before,other,after,rfl,facts⟩
  · rintro (⟨before,other,after,rfl,facts⟩ | facts)
    · exact ⟨before,other,after ++ [line],by simp,facts⟩
    · exact ⟨lines,line,[],rfl,facts⟩

-- What the scan knows after the lines it has read.
structure Scanned (lines : List (List Char)) (s : Scan) : Prop where
  pending : s.pending = namedAbove lines.reverse
  stmtIndex : s.stmtIndex = semicolonsIn lines
  entered : ∀ rule semicolons,(∃ entry ∈ s.byStatement,entry.1 = semicolons ∧ rule ∈ entry.2) ↔ NamedAt lines rule semicolons

theorem scanned_start : Scanned [] ⟨[],0,[]⟩ := by
  refine ⟨rfl,rfl,?_⟩
  intro rule semicolons
  constructor
  · rintro ⟨entry,member,_⟩
    cases member
  · rintro ⟨before,line,after,equal,_⟩
    cases before <;> cases equal

theorem scanned_line {lines : List (List Char)} {s : Scan} (scanned : Scanned lines s) (line : List Char) :
    Scanned (lines ++ [line]) (s.line line) := by
  have above : namedAbove (lines ++ [line]).reverse = namedAbove (line :: lines.reverse) := by simp
  have passed : isContent line = false → ∀ rule semicolons,
      NamedAt (lines ++ [line]) rule semicolons ↔ NamedAt lines rule semicolons := by
    intro other rule semicolons
    rw [namedAt_snoc,other]
    simp
  unfold Scan.line
  by_cases blank : trimChars line = []
  · have other : isContent line = false := by simp [isContent,blank]
    rw [if_pos blank]
    refine ⟨?_,?_,?_⟩
    · rw [above]
      simp [namedAbove,blank]
    · rw [semicolonsIn_snoc,other]
      exact scanned.stmtIndex
    · intro rule semicolons
      exact (scanned.entered rule semicolons).trans (passed other rule semicolons).symm
  rw [if_neg blank]
  cases read : tryParseAnnotation (trimChars line) with
  | some ids =>
    have other : isContent line = false := by simp [isContent,annotation_comment read]
    refine ⟨?_,?_,?_⟩
    · rw [above]
      simp [namedAbove,blank,read,scanned.pending]
    · rw [semicolonsIn_snoc,other]
      exact scanned.stmtIndex
    · intro rule semicolons
      exact (scanned.entered rule semicolons).trans (passed other rule semicolons).symm
  | none =>
    by_cases comment : ['-','-'].isPrefixOf (trimChars line)
    · have other : isContent line = false := by simp [isContent,comment]
      simp only [comment,if_true]
      refine ⟨?_,?_,?_⟩
      · rw [above]
        simp [namedAbove,blank,read,comment,scanned.pending]
      · rw [semicolonsIn_snoc,other]
        exact scanned.stmtIndex
      · intro rule semicolons
        exact (scanned.entered rule semicolons).trans (passed other rule semicolons).symm
    · have content : isContent line := by simp [isContent,blank,comment]
      simp only [comment,Bool.false_eq_true,if_false]
      refine ⟨?_,?_,?_⟩
      · rw [above]
        simp [namedAbove,blank,read,comment]
      · rw [semicolonsIn_snoc,content,scanned.stmtIndex]
        rfl
      · intro rule semicolons
        rw [namedAt_snoc,← scanned.entered rule semicolons,← scanned.pending,← scanned.stmtIndex]
        by_cases none : s.pending = []
        · simp [none]
        · simp only [none,content,if_false,List.mem_append,List.mem_singleton,or_and_right,exists_or,exists_eq_left,true_and]
          rw [and_comm]

theorem scanned_text (lines : List (List Char)) : Scanned lines (lines.foldl Scan.line ⟨[],0,[]⟩) := by
  induction lines using List.reverseRecOn with
  | nil => exact scanned_start
  | append_singleton lines line ih =>
    rw [List.foldl_append]
    exact scanned_line ih line

-- A suppression in the closed form of the scan.
theorem isSuppressed_iff (sql ruleId : List Char) (stmtIndex : Nat) :
    (SuppressionSet.parse sql).isSuppressed ruleId stmtIndex ↔ NamedAt (splitChars '\n' sql) ruleId stmtIndex := by
  rw [← (scanned_text (splitChars '\n' sql)).entered ruleId stmtIndex]
  simp [SuppressionSet.isSuppressed,SuppressionSet.parse]

theorem skips_iff (sql ruleId : List Char) (stmtIndex : Nat) :
    skips (SuppressionSet.parse sql) false ruleId stmtIndex ↔ NamedAt (splitChars '\n' sql) ruleId stmtIndex := by
  rw [← isSuppressed_iff]
  unfold skips
  constructor
  · intro skipped
    simp only [Bool.and_eq_true] at skipped
    exact skipped.2
  · intro suppressed
    have held : (SuppressionSet.parse sql).isEmpty = false := by
      apply Bool.eq_false_iff.mpr
      intro empty
      rw [SuppressionSet.isEmpty,List.isEmpty_iff] at empty
      rw [SuppressionSet.isSuppressed,empty] at suppressed
      cases suppressed
    simp [held,suppressed]

section
variable {Statement : Type} (parser : SqlParser Statement)

-- After a failure the parser stands at the next semicolon, past the token it failed on.
theorem recovered_shorter {rest : List Lexeme} (written : rest.dropWhile passedOver ≠ []) (read : Nat) :
    (((rest.dropWhile passedOver).drop read).dropWhile fun lexeme => lexeme.kind != .semicolon).length <
      (rest.dropWhile passedOver).length := by
  cases found : rest.dropWhile passedOver with
  | nil => exact absurd found written
  | cons first others =>
    have opens := List.head_dropWhile_not passedOver written
    have code : (first.kind != .semicolon) = true := by
      simp only [found,List.head_cons,passedOver,Bool.or_eq_false_iff] at opens
      simp only [bne,opens.2,Bool.not_false]
    cases read with
    | zero =>
      rw [List.drop_zero,List.dropWhile_cons,if_pos code]
      exact Nat.lt_succ_of_le (List.dropWhile_suffix _).length_le
    | succ read =>
      rw [List.drop_succ_cons]
      have dropped : (others.drop read).length ≤ others.length := by
        rw [List.length_drop]
        exact Nat.sub_le _ _
      exact Nat.lt_succ_of_le ((List.dropWhile_suffix _).length_le.trans dropped)

-- Every fuel that the lexemes do not exceed gives the same statements.
theorem parseFrom_fuel {fuel fuel' : Nat} {leading rest : List Lexeme} (enough : rest.length ≤ fuel)
    (enough' : rest.length ≤ fuel') : parseFrom parser fuel leading rest = parseFrom parser fuel' leading rest := by
  induction fuel generalizing fuel' leading rest with
  | zero =>
    have empty := List.eq_nil_of_length_eq_zero (Nat.le_zero.mp enough)
    cases fuel' <;> simp [parseFrom,empty]
  | succ fuel ih =>
    cases fuel' with
    | zero =>
      have empty := List.eq_nil_of_length_eq_zero (Nat.le_zero.mp enough')
      simp [parseFrom,empty]
    | succ fuel' =>
      have within : (rest.dropWhile passedOver).length ≤ rest.length := (List.dropWhile_suffix _).length_le
      simp only [parseFrom]
      split
      · rfl
      rename_i written
      have positive : 0 < (rest.dropWhile passedOver).length := List.length_pos_iff.mpr written
      split
      · rename_i statement read parsed
        have advanced := parser.advances parsed
        have shorter : ((rest.dropWhile passedOver).drop read).length < (rest.dropWhile passedOver).length := by
          rw [List.length_drop]
          omega
        rw [ih (by omega) (by omega : _ ≤ fuel')]
      · rename_i message read parsed
        have shorter := recovered_shorter written read
        rw [ih (by omega) (by omega : _ ≤ fuel')]

end

-- The semicolon of a string counts as the end of a statement.
def quotedSemicolon : List Lexeme :=
  [⟨.code,"SELECT".toList⟩,⟨.space,[' ']⟩,⟨.code,"';'".toList⟩,⟨.semicolon,[';']⟩,⟨.newline,['\n']⟩,
    ⟨.lineComment,"-- scythe-audit: ignore[SC-MIG01]".toList⟩,⟨.newline,['\n']⟩,⟨.code,"DROP".toList⟩,⟨.space,[' ']⟩,
    ⟨.code,"TABLE".toList⟩,⟨.space,[' ']⟩,⟨.code,"a".toList⟩,⟨.semicolon,[';']⟩]

def quotedSemicolonText : List Char := "SELECT ';';\n-- scythe-audit: ignore[SC-MIG01]\nDROP TABLE a;".toList

def statementReader (lexemes : List Lexeme) : Except (List Char) (List Char) × Nat :=
  let read := lexemes.takeWhile fun lexeme => lexeme.kind != .semicolon
  if read = [] then (.error "expected a statement".toList,0) else (.ok (read.flatMap Lexeme.text),read.length)

def quotedSemicolonParser : SqlParser (List Char) where
  tokenize sql := .ok (if sql = quotedSemicolonText then quotedSemicolon else [⟨.code,sql⟩])
  spells := by
    intro sql lexemes tokenized
    cases tokenized
    split
    · rename_i same
      rw [same]
      rfl
    · simp
  parseStatement := statementReader
  advances := by
    intro lexemes statement read parsed
    simp only [statementReader] at parsed
    split at parsed
    · cases parsed
    · rename_i written
      cases parsed
      exact List.length_pos_iff.mpr written

end Scythe.Suppression
