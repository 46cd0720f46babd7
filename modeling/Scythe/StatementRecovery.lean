import Scythe.Lib.Recovery
import Scythe.Suppression

-- The statements of a file that are read where others fail.
namespace Scythe.StatementRecovery
open Suppression Recovery

section
variable {Statement : Type} (parser : SqlParser Statement)

def grammar : Grammar Lexeme Statement (List Char) where
  blank := passedOver
  stop lexeme := lexeme.kind == .semicolon
  blanks lexeme stop := by
    unfold passedOver
    rw [stop,Bool.or_true]
  read := parser.parseStatement
  advances := parser.advances

-- The parser that gives up where any statement fails. It takes statements that are
-- delimited with semicolons.
structure StrictParser where
  parse : List Lexeme → Except (List Char) (List Statement)
  accepts : ∀ {lexemes statements},Delimited (grammar parser) lexemes statements → parse lexemes = .ok statements

def parseLexemes (lexemes : List Lexeme) : List (Parsed Statement) × List StatementParseFailure :=
  parseFrom parser lexemes.length [] lexemes

def leadingOf (whole start : List Lexeme) : List Lexeme := whole.take (whole.length - start.length)

def returned (whole : List Lexeme) (attempt : Attempt Lexeme Statement (List Char)) : Option (Parsed Statement) :=
  match attempt.result with
  | .ok statement => some ⟨statement,leadingOf whole attempt.start⟩
  | .error _ => none

def reported (whole : List Lexeme) (attempt : Attempt Lexeme Statement (List Char)) : Option StatementParseFailure :=
  match attempt.result with
  | .ok _ => none
  | .error message => some ⟨startLine (leadingOf whole attempt.start),message⟩

theorem leadingOf_append (leading start : List Lexeme) : leadingOf (leading ++ start) start = leading := by
  unfold leadingOf
  rw [List.length_append,Nat.add_sub_cancel]
  exact List.take_left

-- What is returned and reported are the successes and failures of the loop.
theorem parseFrom_attempts (fuel : Nat) (leading rest : List Lexeme) :
    parseFrom parser fuel leading rest =
      ((attemptsFrom (grammar parser) fuel rest).filterMap (returned (leading ++ rest)),
        (attemptsFrom (grammar parser) fuel rest).filterMap (reported (leading ++ rest))) := by
  induction fuel generalizing leading rest with
  | zero => rfl
  | succ fuel ih =>
    have whole : leading ++ rest = (leading ++ rest.takeWhile passedOver) ++ rest.dropWhile passedOver := by
      rw [List.append_assoc,List.takeWhile_append_dropWhile]
    have starts : begin (grammar parser) rest = rest.dropWhile passedOver := rfl
    rw [parseFrom,attemptsFrom,starts]
    dsimp only
    by_cases written : rest.dropWhile passedOver = []
    · rw [if_pos written,if_pos written]
      rfl
    rw [if_neg written,if_neg written]
    have reads : (grammar parser).read = parser.parseStatement := rfl
    rw [reads]
    cases is : parser.parseStatement (rest.dropWhile passedOver) with
    | mk result read =>
      cases result with
      | ok statement =>
        dsimp only
        have split : leading ++ rest.takeWhile passedOver ++ (rest.dropWhile passedOver).take read ++
            (rest.dropWhile passedOver).drop read = leading ++ rest := by
          rw [List.append_assoc (leading ++ _),List.take_append_drop,← whole]
        rw [ih,split]
        have first : returned (leading ++ rest) ⟨rest.dropWhile passedOver,.ok statement⟩ =
            some ⟨statement,leading ++ rest.takeWhile passedOver⟩ := by
          unfold returned
          dsimp only
          rw [whole,leadingOf_append]
        rw [List.filterMap_cons_some first,List.filterMap_cons_none rfl]
      | error message =>
        dsimp only
        have split : leading ++ rest.takeWhile passedOver ++ ((rest.dropWhile passedOver).take read ++
            ((rest.dropWhile passedOver).drop read).takeWhile fun lexeme => lexeme.kind != .semicolon) ++
            nextStop (grammar parser) (rest.dropWhile passedOver) read = leading ++ rest := by
          have stop : nextStop (grammar parser) (rest.dropWhile passedOver) read =
            ((rest.dropWhile passedOver).drop read).dropWhile fun lexeme => lexeme.kind != .semicolon := rfl
          rw [stop,List.append_assoc (leading ++ _),List.append_assoc (List.take _ _),List.takeWhile_append_dropWhile,
            List.take_append_drop,← whole]
        have later := ih (leading ++ rest.takeWhile passedOver ++ ((rest.dropWhile passedOver).take read ++
          ((rest.dropWhile passedOver).drop read).takeWhile fun lexeme => lexeme.kind != .semicolon))
          (nextStop (grammar parser) (rest.dropWhile passedOver) read)
        rw [split] at later
        have first : reported (leading ++ rest) (⟨rest.dropWhile passedOver,.error message⟩ : Attempt _ Statement _) =
            some ⟨startLine (leading ++ rest.takeWhile passedOver),message⟩ := by
          unfold reported
          dsimp only
          rw [whole,leadingOf_append]
        rw [List.filterMap_cons_none rfl,List.filterMap_cons_some first]
        exact congrArg (fun later => (later.1,_ :: later.2)) later

-- The statements of the lexemes, as the loop goes through them.
def attempts (lexemes : List Lexeme) : List (Attempt Lexeme Statement (List Char)) :=
  attemptsFrom (grammar parser) lexemes.length lexemes

-- The loop ends, each statement is returned or reported where it starts, and a file
-- where none fails reads as it does strictly.
structure Recovers (strict : StrictParser parser) (lexemes : List Lexeme) : Prop where
  ends : ∀ fuel,lexemes.length ≤ fuel → parseFrom parser fuel [] lexemes = parseLexemes parser lexemes
  covered : parseLexemes parser lexemes =
    ((attempts parser lexemes).filterMap (returned lexemes),(attempts parser lexemes).filterMap (reported lexemes))
  isolated : Isolated (grammar parser) lexemes (attempts parser lexemes)
  strictly : ∀ statements,Delimited (grammar parser) lexemes statements →
    (parseLexemes parser lexemes).2 = [] ∧ strict.parse lexemes = .ok ((parseLexemes parser lexemes).1.map (·.statement))

variable {parser}

theorem delimited_returned (whole : List Lexeme) {attempts : List (Attempt Lexeme Statement (List Char))}
    {statements : List Statement} (results : attempts.map (·.result) = statements.map .ok) :
    attempts.filterMap (reported whole) = [] ∧ (attempts.filterMap (returned whole)).map (·.statement) = statements := by
  induction attempts generalizing statements with
  | nil =>
    cases statements with
    | nil => exact ⟨rfl,rfl⟩
    | cons => cases results
  | cons attempt attempts ih =>
    obtain ⟨start,result⟩ := attempt
    cases statements with
    | nil => cases results
    | cons statement statements =>
      obtain ⟨first,others⟩ := List.cons.inj results
      have first : result = .ok statement := first
      subst first
      obtain ⟨silent,same⟩ := ih others
      constructor
      · rw [List.filterMap_cons_none rfl]
        exact silent
      · have here : returned whole ⟨start,.ok statement⟩ = some ⟨statement,leadingOf whole start⟩ := rfl
        rw [List.filterMap_cons_some here,List.map_cons,same]

theorem lenient_recovers_iff (strict : StrictParser parser) (lexemes : List Lexeme) :
    Recovers parser strict lexemes ↔
      ∀ attempts,Isolated (grammar parser) lexemes attempts → ∀ attempt ∈ attempts,∀ message read,
        parser.parseStatement attempt.start = (.error message,read) → InTime (grammar parser) attempt.start read := by
  have iff := attempts_isolated_iff (grammar parser) (Nat.le_refl lexemes.length)
  constructor
  · intro recovers
    exact iff.mp recovers.isolated
  · intro timely
    refine ⟨?_,parseFrom_attempts parser _ [] lexemes,iff.mpr timely,?_⟩
    · intro fuel enough
      exact parseFrom_fuel parser enough (Nat.le_refl _)
    · intro statements delimited
      obtain ⟨silent,same⟩ := delimited_returned lexemes (delimited.attempts (Nat.le_refl lexemes.length))
      unfold parseLexemes
      rw [parseFrom_attempts parser _ [] lexemes]
      exact ⟨silent,(strict.accepts delimited).trans (congrArg Except.ok same.symm)⟩

end

-- The name of a table is missing, and the semicolon was read in its place.
def missingName : List Lexeme :=
  [⟨.code,"DROP".toList⟩,⟨.space,[' ']⟩,⟨.code,"TABLE".toList⟩,⟨.space,[' ']⟩,⟨.semicolon,[';']⟩,⟨.space,[' ']⟩,
    ⟨.code,"DROP".toList⟩,⟨.space,[' ']⟩,⟨.code,"TABLE".toList⟩,⟨.space,[' ']⟩,⟨.code,"a".toList⟩,⟨.semicolon,[';']⟩]

def dropReader : List Lexeme → Except (List Char) (List Char) × Nat
  | drop :: _ :: table :: _ :: name :: _ =>
    if drop.text = "DROP".toList ∧ table.text = "TABLE".toList ∧ name.kind = .code then (.ok name.text,5)
    else (.error "sql parser error: Expected: identifier, found: ; at Line: 1, Column: 12".toList,5)
  | _ => (.error "sql parser error: Expected: an SQL statement, found: EOF".toList,1)

def dropParser : SqlParser (List Char) where
  tokenize sql := .ok (if sql = missingName.flatMap Lexeme.text then missingName else [⟨.code,sql⟩])
  spells := by
    intro sql lexemes tokenized
    cases tokenized
    split
    · rename_i same
      exact same.symm
    · simp
  parseStatement := dropReader
  advances := by
    intro lexemes statement read parsed
    unfold dropReader at parsed
    split at parsed
    · split at parsed
      · cases parsed
        exact Nat.succ_pos 4
      · cases parsed
    · cases parsed

theorem mapM_ok {α ε : Type} (items : List α) : (items.map (Except.ok (ε := ε))).mapM id = .ok items := by
  induction items with
  | nil => rfl
  | cons item items ih =>
    rw [List.map_cons,List.mapM_cons,ih]
    rfl

def dropStrict : StrictParser dropParser where
  parse lexemes := ((attempts dropParser lexemes).map (·.result)).mapM id
  accepts := by
    intro lexemes statements delimited
    unfold attempts
    rw [delimited.attempts (Nat.le_refl lexemes.length)]
    exact mapM_ok statements

theorem missingName_drops : (parseStatementsLenient dropParser "DROP TABLE ; DROP TABLE a;".toList).1 = [] ∧
    ¬Recovers dropParser dropStrict missingName := by
  refine ⟨by decide,?_⟩
  intro recovers
  have failed : attempts dropParser missingName =
      [⟨missingName,.error "sql parser error: Expected: identifier, found: ; at Line: 1, Column: 12".toList⟩] := rfl
  have timely := attempts_timely (Nat.le_refl _) recovers.isolated
  have late := timely _ (failed ▸ List.mem_singleton_self _) _ 5 rfl
  cases late

end Scythe.StatementRecovery
