import Mathlib.Data.List.TakeWhile
import Scythe.Lib.Splice
import Scythe.Rewrite

-- Which placeholders of a text are alive, to the code generators and to the lexer
-- of the dialect that the text is written in.
namespace Scythe
open Text Splice

abbrev PlaceholderCuts := List (Cut Char (List Char))

-- `$N`, `?` or `?N`, with all of its digits.
def PlaceholderToken (token rest : List Char) : Prop :=
  ∃ sign digits,token = sign :: digits ∧ (sign = '$' ∨ sign = '?') ∧ (∀ d ∈ digits,isDigit d = true) ∧
    (sign = '$' → digits ≠ []) ∧ Stops isDigit rest

-- A lexer of some dialect, as far as it tells placeholders from all else.
structure DialectLexer where
  cuts : List Char → PlaceholderCuts
  whole : ∀ sql,spelled id (cuts sql) = sql
  delimited : ∀ sql,Delimited PlaceholderToken id (cuts sql)

-- A placeholder with digits has their number; the others are counted.
def numbered : Nat → PlaceholderCuts → List Piece × Nat
  | counter,[] => ([],counter)
  | counter,.plain c :: cuts =>
    let (pieces,last) := numbered counter cuts
    (.copied [c] :: pieces,last)
  | counter,.site token :: cuts =>
    match token.tail with
    | [] =>
      let (pieces,last) := numbered (counter + 1) cuts
      (.placeholder (counter + 1) :: pieces,last)
    | digits =>
      let (pieces,last) := numbered counter cuts
      (.placeholder (placeholderNumber digits) :: pieces,last)

def outcome (formatter : Nat → String) (pieces : List Piece) : String × List Nat :=
  (String.ofList (pieces.flatMap (·.written formatter)),pieces.filterMap (·.position?))

-- The text with exactly the placeholders of the dialect's lexer rewritten.
def DialectLexer.rewrite (lexer : DialectLexer) (sql : String) (formatter : Nat → String) : String × List Nat :=
  outcome formatter (numbered 0 (lexer.cuts sql.toList)).1

-- Where the scan of a code span finds placeholders.
def codeSpanCuts (bareQuestionIsPlaceholder : Bool) : Nat → List Char → PlaceholderCuts
  | 0,_ => []
  | _,[] => []
  | fuel + 1,c :: cs =>
    match matchUnambiguousOperator (c :: cs) with
    | some (operator,rest) => operator.map .plain ++ codeSpanCuts bareQuestionIsPlaceholder fuel rest
    | none =>
      let digitNext := (cs.head?.map isDigit).getD false
      if c = '$' ∧ digitNext then
        .site ('$' :: cs.takeWhile isDigit) :: codeSpanCuts bareQuestionIsPlaceholder fuel (cs.dropWhile isDigit)
      else if c = '?' ∧ bareQuestionIsPlaceholder ∧ ¬digitNext then
        .site ['?'] :: codeSpanCuts bareQuestionIsPlaceholder fuel cs
      else .plain c :: codeSpanCuts bareQuestionIsPlaceholder fuel cs

-- A scan for placeholders where nothing is quoted.
structure CodeScan where
  cuts : List Char → PlaceholderCuts
  whole : ∀ text,spelled id (cuts text) = text
  delimited : ∀ text more,Stops isDigit (spelled id more) → Delimited PlaceholderToken id more →
    Delimited PlaceholderToken id (cuts text ++ more)

-- What is quoted, or commented out, is known by how it starts.
structure SpanReader where
  read : Scanner.Reader SqlSpanKind
  splits : read.Splits
  starts : ∀ cs kind text rest,read cs = some (kind,text,rest) → kind ≠ .code ∧ Stops isDigit cs

def spanCuts (scan : CodeScan) (span : SqlSpan) : PlaceholderCuts :=
  if span.1 = .code then scan.cuts span.2 else span.2.map .plain

theorem stops_dropWhile {p : Char → Bool} {cs more : List Char} (stops : Stops p more) :
    Stops p (cs.dropWhile p ++ more) := by
  induction cs with
  | nil => exact stops
  | cons c cs ih =>
    rw [List.dropWhile_cons]
    split
    next => exact ih
    next differs =>
      intro d member
      have same : c = d := Option.some.inj member
      rw [←same]
      simpa using differs

theorem matchUnambiguousOperator_spec {cs operator rest : List Char}
    (found : matchUnambiguousOperator cs = some (operator,rest)) : cs = operator ++ rest ∧ operator ≠ [] := by
  obtain ⟨op,member,matched⟩ := List.exists_of_findSome?_eq_some found
  obtain ⟨rest',here,equal⟩ := Option.map_eq_some_iff.mp matched
  obtain ⟨rfl,rfl⟩ := Prod.mk.inj equal
  have nonempty : ∀ op ∈ unambiguousOperators,op.toList ≠ [] := by decide
  exact ⟨(List.isPrefixOf?_eq_some_iff_append_eq.mp here).symm,nonempty op member⟩

theorem dollarToken {cs rest : List Char} (digitNext : (cs.head?.map isDigit).getD false = true)
    (stops : Stops isDigit rest) : PlaceholderToken ('$' :: cs.takeWhile isDigit) rest := by
  refine ⟨'$',cs.takeWhile isDigit,rfl,Or.inl rfl,fun _ member => List.mem_takeWhile_imp member,?_,stops⟩
  intro _
  cases cs with
  | nil => cases digitNext
  | cons d cs =>
    have isDigit' : isDigit d = true := digitNext
    rw [List.takeWhile_cons_of_pos isDigit']
    exact List.cons_ne_nil _ _

theorem questionToken {rest : List Char} (stops : Stops isDigit rest) : PlaceholderToken ['?'] rest := by
  refine ⟨'?',[],rfl,Or.inr rfl,?_,?_,stops⟩
  · intro d absent
    cases absent
  · intro dollar
    exact absurd dollar (by decide)

theorem delimited_plains {P : List Char → List Char → Prop} (text : List Char) {cuts : PlaceholderCuts}
    (delimited : Delimited P id cuts) : Delimited P id (text.map .plain ++ cuts) := by
  induction text with
  | nil => exact delimited
  | cons c text ih => exact ih

theorem codeSpanCuts_whole (bare : Bool) {fuel : Nat} {cs : List Char} (enough : cs.length ≤ fuel) :
    spelled id (codeSpanCuts bare fuel cs) = cs := by
  induction fuel generalizing cs with
  | zero =>
    have empty : cs = [] := List.eq_nil_of_length_eq_zero (by omega)
    rw [empty]
    rfl
  | succ fuel ih =>
    cases cs with
    | nil => rfl
    | cons c cs =>
      have tail : cs.length ≤ fuel := Nat.le_of_succ_le_succ enough
      rw [codeSpanCuts]
      cases operator : matchUnambiguousOperator (c :: cs) with
      | some found =>
        obtain ⟨op,rest⟩ := found
        obtain ⟨whole,nonempty⟩ := matchUnambiguousOperator_spec operator
        have positive := List.length_pos_iff.mpr nonempty
        have length := congrArg List.length whole
        rw [List.length_append,List.length_cons] at length
        dsimp only
        rw [spelled_append,spelled_plains,ih (by omega),whole]
      | none =>
        dsimp only
        split
        next dollar =>
          have shorter := (List.dropWhile_suffix isDigit (l := cs)).length_le
          rw [spelled_site,ih (by omega),dollar.1]
          simp [List.takeWhile_append_dropWhile]
        next =>
          split
          next question =>
            rw [spelled_site,ih tail,question.1]
            rfl
          next => rw [spelled_plain,ih tail]

theorem codeSpanCuts_delimited (bare : Bool) {fuel : Nat} {cs : List Char} (enough : cs.length ≤ fuel)
    {more : PlaceholderCuts} (stops : Stops isDigit (spelled id more)) (delimited : Delimited PlaceholderToken id more) :
    Delimited PlaceholderToken id (codeSpanCuts bare fuel cs ++ more) := by
  induction fuel generalizing cs with
  | zero =>
    have empty : cs = [] := List.eq_nil_of_length_eq_zero (by omega)
    rw [empty]
    exact delimited
  | succ fuel ih =>
    cases cs with
    | nil => exact delimited
    | cons c cs =>
      have tail : cs.length ≤ fuel := Nat.le_of_succ_le_succ enough
      rw [codeSpanCuts]
      cases operator : matchUnambiguousOperator (c :: cs) with
      | some found =>
        obtain ⟨op,rest⟩ := found
        obtain ⟨whole,nonempty⟩ := matchUnambiguousOperator_spec operator
        have positive := List.length_pos_iff.mpr nonempty
        have length := congrArg List.length whole
        rw [List.length_append,List.length_cons] at length
        dsimp only
        rw [List.append_assoc]
        exact delimited_plains op (ih (by omega))
      | none =>
        dsimp only
        split
        next dollar =>
          have shorter := (List.dropWhile_suffix isDigit (l := cs)).length_le
          rw [List.cons_append]
          refine ⟨dollarToken dollar.2 ?_,ih (by omega)⟩
          rw [spelled_append,codeSpanCuts_whole bare (by omega)]
          exact stops_dropWhile stops
        next =>
          split
          next question =>
            rw [List.cons_append]
            refine ⟨questionToken ?_,ih tail⟩
            rw [spelled_append,codeSpanCuts_whole bare tail]
            cases cs with
            | nil => exact stops
            | cons d cs =>
              intro e member
              have same : d = e := Option.some.inj member
              rw [←same]
              simpa using question.2.2
          next => exact ih tail

theorem spanCuts_whole (scan : CodeScan) (spans : List SqlSpan) :
    spelled id (spans.flatMap (spanCuts scan)) = Scanner.concatenation spans := by
  induction spans with
  | nil => rfl
  | cons span spans ih =>
    rw [List.flatMap_cons,spelled_append,ih,spanCuts]
    split
    next => rw [scan.whole]; rfl
    next => rw [spelled_plains]; rfl

theorem spanCuts_delimited (scan : CodeScan) {spans : List SqlSpan}
    (apart : Scanner.Apart (Stops isDigit) .code spans) :
    Delimited PlaceholderToken id (spans.flatMap (spanCuts scan)) := by
  induction spans with
  | nil => trivial
  | cons span spans ih =>
    rw [List.flatMap_cons,spanCuts]
    split
    next isCode =>
      apply scan.delimited
      · rw [spanCuts_whole]
        exact apart.1 isCode
      · exact ih apart.2
    next => exact delimited_plains _ (ih apart.2)

def SpanReader.lexer (reader : SpanReader) (scan : CodeScan) : DialectLexer where
  cuts sql := (Scanner.spans reader.read .code sql).flatMap (spanCuts scan)
  whole sql := by rw [spanCuts_whole,Scanner.spans_whole reader.splits]
  delimited sql := by
    apply spanCuts_delimited
    apply Scanner.spans_apart reader.splits
    · intro c absent
      cases absent
    · exact reader.starts

-- A placeholder lies in a span of code, where the scan of that span finds it.
theorem spanCuts_finds (scan : CodeScan) (spans : List SqlSpan) (before : List Char) :
    Finds id (spans.flatMap (spanCuts scan)) before ↔
      ∃ earlier text later inside,spans = earlier ++ (.code,text) :: later ∧
        before = Scanner.concatenation earlier ++ inside ∧ Finds id (scan.cuts text) inside := by
  induction spans generalizing before with
  | nil =>
    constructor
    · intro finds
      exact absurd finds (finds_nil before)
    · intro found
      obtain ⟨earlier,text,later,inside,equal,-⟩ := found
      cases earlier <;> cases equal
  | cons span spans ih =>
    rw [List.flatMap_cons,finds_append]
    constructor
    · intro finds
      rcases finds with here | ⟨after,rfl,there⟩
      · obtain ⟨kind,text⟩ := span
        rw [spanCuts] at here
        split at here
        next isCode =>
          dsimp only at isCode
          rw [isCode]
          exact ⟨[],text,spans,before,rfl,rfl,here⟩
        next => exact absurd here (finds_plains _ before)
      · obtain ⟨earlier,text,later,inside,rfl,rfl,found⟩ := (ih after).mp there
        refine ⟨span :: earlier,text,later,inside,rfl,?_,found⟩
        have whole := spanCuts_whole scan [span]
        rw [List.flatMap_cons,List.flatMap_nil,List.append_nil] at whole
        rw [whole,←List.append_assoc,Scanner.concatenation,Scanner.concatenation,Scanner.concatenation,
          ←List.flatMap_append]
        rfl
    · intro found
      obtain ⟨earlier,text,later,inside,equal,rfl,found⟩ := found
      cases earlier with
      | nil =>
        obtain ⟨rfl,rfl⟩ := List.cons.inj equal
        exact Or.inl found
      | cons first earlier =>
        obtain ⟨rfl,rfl⟩ := List.cons.inj equal
        refine Or.inr ⟨Scanner.concatenation earlier ++ inside,?_,(ih _).mpr ⟨earlier,text,later,inside,rfl,rfl,found⟩⟩
        have whole := spanCuts_whole scan [span]
        rw [List.flatMap_cons,List.flatMap_nil,List.append_nil] at whole
        rw [whole,←List.append_assoc,Scanner.concatenation,Scanner.concatenation,Scanner.concatenation,
          ←List.flatMap_append]
        rfl

def codeScan (bareQuestionIsPlaceholder : Bool) : CodeScan where
  cuts text := codeSpanCuts bareQuestionIsPlaceholder text.length text
  whole _ := codeSpanCuts_whole bareQuestionIsPlaceholder (Nat.le_refl _)
  delimited _ _ stops delimited := codeSpanCuts_delimited bareQuestionIsPlaceholder (Nat.le_refl _) stops delimited

theorem separableTokens : Separable PlaceholderToken (id : List Char → List Char) where
  some token rest isToken := by
    obtain ⟨sign,digits,rfl,-⟩ := isToken
    exact List.cons_ne_nil _ _
  determined token token' rest rest' isToken isToken' equal := by
    obtain ⟨sign,digits,rfl,-,allDigits,-,stops⟩ := isToken
    obtain ⟨sign',digits',rfl,-,allDigits',-,stops'⟩ := isToken'
    obtain ⟨sameSign,after⟩ := List.cons.inj equal
    rw [sameSign,(run_unique allDigits allDigits' stops stops' after).1]

theorem tokens_unmarked {token rest : List Char} (isToken : PlaceholderToken token rest) :
    ∃ c more,id token = c :: more ∧ c ≠ '(' := by
  obtain ⟨sign,digits,rfl,signs,-⟩ := isToken
  refine ⟨sign,digits,rfl,?_⟩
  intro is
  rw [is] at signs
  revert signs
  decide

theorem stops_cons {p : Char → Bool} {c : Char} (opens : p c = false) (cs : List Char) : Stops p (c :: cs) := by
  intro d member
  have same : c = d := Option.some.inj member
  rw [←same]
  exact opens

theorem spanOf_kind {kind kind' : SqlSpanKind} {opening text rest : List Char} {parts : List Char × List Char}
    (spanned : spanOf kind' opening parts = some (kind,text,rest)) (quoted : kind' ≠ .code) : kind ≠ .code := by
  cases spanned
  exact quoted

section
variable [CaseMap]

theorem readSpan_starts {dialect : SqlDialect} {cs text rest : List Char} {kind : SqlSpanKind}
    (found : readSpan dialect cs = some (kind,text,rest)) : kind ≠ .code ∧ Stops isDigit cs := by
  unfold readSpan at found
  split at found
  · exact ⟨spanOf_kind found (by decide),stops_cons (by decide) _⟩
  · exact ⟨spanOf_kind found (by decide),stops_cons (by decide) _⟩
  · exact ⟨spanOf_kind found (by decide),stops_cons (by decide) _⟩
  · exact ⟨spanOf_kind found (by decide),stops_cons (by decide) _⟩
  · obtain ⟨⟨delimiter,inner⟩,-,spanned⟩ := Option.bind_eq_some_iff.mp found
    exact ⟨spanOf_kind spanned (by decide),stops_cons (by decide) _⟩
  · split at found
    · rename_i tick
      exact ⟨spanOf_kind found (by decide),stops_cons (by simp [isDigit,tick.1]) _⟩
    split at found
    · rename_i hash
      rw [hash.1]
      exact ⟨spanOf_kind found (by decide),stops_cons (by decide) _⟩
    split at found
    · rename_i bracket
      rw [bracket.1]
      exact ⟨spanOf_kind found (by decide),stops_cons (by decide) _⟩
    · cases found
  · cases found

def spanReader (dialect : SqlDialect) : SpanReader where
  read := readSpan dialect
  splits := readSpan_splits dialect
  starts _ _ _ _ found := readSpan_starts found

-- The lexer that the code generators are for a dialect.
def generatorLexer (dialect : SqlDialect) : DialectLexer :=
  (spanReader dialect).lexer (codeScan (dialectAllowsBareQuestionMarkPlaceholder dialect))

-- After so much of the text a span of code has a placeholder, as its scan goes.
def LiveAt (dialect : SqlDialect) (sql : List Char) (before : List Char) : Prop :=
  ∃ earlier text later inside,tokenizeSql sql dialect = earlier ++ (.code,text) :: later ∧
    before = Scanner.concatenation earlier ++ inside ∧
    Finds id (codeSpanCuts (dialectAllowsBareQuestionMarkPlaceholder dialect) text.length text) inside

theorem generatorLexer_finds (dialect : SqlDialect) (sql before : List Char) :
    Finds id ((generatorLexer dialect).cuts sql) before ↔ LiveAt dialect sql before := spanCuts_finds _ _ before

end

theorem outcome_append (formatter : Nat → String) (pieces others : List Piece) :
    outcome formatter (pieces ++ others) =
      ((outcome formatter pieces).1 ++ (outcome formatter others).1,(outcome formatter pieces).2 ++ (outcome formatter others).2) := by
  simp only [outcome,List.flatMap_append,List.filterMap_append,String.ofList_append]

theorem numbered_append (counter : Nat) (cuts others : PlaceholderCuts) :
    numbered counter (cuts ++ others) =
      ((numbered counter cuts).1 ++ (numbered (numbered counter cuts).2 others).1,
        (numbered (numbered counter cuts).2 others).2) := by
  induction cuts generalizing counter with
  | nil => rfl
  | cons cut cuts ih =>
    cases cut with
    | plain c => simp only [List.cons_append,numbered,ih]
    | site token =>
      rw [List.cons_append,numbered,numbered]
      split
      · simp only [ih,List.cons_append]
      · simp only [ih,List.cons_append]

theorem numbered_plains (counter : Nat) (text : List Char) :
    numbered counter (text.map .plain) = (text.map fun c => .copied [c],counter) := by
  induction text with
  | nil => rfl
  | cons c text ih => simp only [List.map_cons,numbered,ih]

theorem outcome_copied (formatter : Nat → String) (text : List Char) :
    outcome formatter (text.map fun c => .copied [c]) = outcome formatter [.copied text] := by
  have characters : (text.map fun c => Piece.copied [c]).flatMap (Piece.written formatter) = text := by
    induction text with
    | nil => rfl
    | cons c text ih => rw [List.map_cons,List.flatMap_cons,ih]; rfl
  have none : (text.map fun c => Piece.copied [c]).filterMap (·.position?) = [] := by
    rw [List.filterMap_eq_nil_iff]
    intro piece member
    obtain ⟨c,-,rfl⟩ := List.mem_map.mp member
    rfl
  rw [outcome,outcome,characters,none]
  simp [Piece.written,Piece.position?]

theorem outcome_congr {formatter : Nat → String} {pieces others : List Piece} (before : List Piece)
    (same : outcome formatter pieces = outcome formatter others) :
    outcome formatter (before ++ pieces) = outcome formatter (before ++ others) := by
  rw [outcome_append,outcome_append,same]

-- The rewriting of a code span numbers what its scan finds.
theorem codeSpan_numbered (bare : Bool) (formatter : Nat → String) (fuel counter : Nat) (cs : List Char) :
    (rewriteCodeSpanPlaceholders bare fuel counter cs).2 = (numbered counter (codeSpanCuts bare fuel cs)).2 ∧
      outcome formatter (rewriteCodeSpanPlaceholders bare fuel counter cs).1 =
        outcome formatter (numbered counter (codeSpanCuts bare fuel cs)).1 := by
  induction fuel generalizing counter cs with
  | zero => exact ⟨rfl,rfl⟩
  | succ fuel ih =>
    cases cs with
    | nil => exact ⟨rfl,rfl⟩
    | cons c cs =>
      rw [rewriteCodeSpanPlaceholders,codeSpanCuts]
      cases operator : matchUnambiguousOperator (c :: cs) with
      | some found =>
        obtain ⟨op,rest⟩ := found
        obtain ⟨last,pieces⟩ := ih counter rest
        dsimp only
        rw [numbered_append,numbered_plains]
        refine ⟨last,?_⟩
        have copied := outcome_append formatter [.copied op] (rewriteCodeSpanPlaceholders bare fuel counter rest).1
        rw [outcome_append,outcome_copied,←pieces,←copied]
        rfl
      | none =>
        dsimp only
        split
        next dollar =>
          obtain ⟨last,pieces⟩ := ih counter (cs.dropWhile isDigit)
          have digits : cs.takeWhile isDigit ≠ [] := by
            cases cs with
            | nil => cases dollar.2
            | cons d cs =>
              have isDigit' : isDigit d = true := dollar.2
              rw [List.takeWhile_cons_of_pos isDigit']
              exact List.cons_ne_nil _ _
          have number : numbered counter (.site ('$' :: cs.takeWhile isDigit) ::
              codeSpanCuts bare fuel (cs.dropWhile isDigit)) =
              (.placeholder (placeholderNumber (cs.takeWhile isDigit)) ::
                (numbered counter (codeSpanCuts bare fuel (cs.dropWhile isDigit))).1,
                (numbered counter (codeSpanCuts bare fuel (cs.dropWhile isDigit))).2) := by
            rw [numbered]
            split
            next none => exact absurd none digits
            next => rfl
          rw [number]
          exact ⟨last,outcome_congr [.placeholder (placeholderNumber (cs.takeWhile isDigit))] pieces⟩
        next =>
          split
          next question =>
            obtain ⟨last,pieces⟩ := ih (counter + 1) cs
            exact ⟨last,outcome_congr [.placeholder (counter + 1)] pieces⟩
          next =>
            obtain ⟨last,pieces⟩ := ih counter cs
            exact ⟨last,outcome_congr [.copied [c]] pieces⟩

theorem span_numbered (bare : Bool) (formatter : Nat → String) (counter : Nat) (span : SqlSpan) :
    (spanPieces bare counter span).2 = (numbered counter (spanCuts (codeScan bare) span)).2 ∧
      outcome formatter (spanPieces bare counter span).1 =
        outcome formatter (numbered counter (spanCuts (codeScan bare) span)).1 := by
  by_cases isCode : span.1 = .code
  · rw [spanPieces,spanCuts,if_pos isCode,if_pos isCode]
    exact codeSpan_numbered bare formatter span.2.length counter span.2
  · rw [spanPieces,spanCuts,if_neg isCode,if_neg isCode,numbered_plains]
    exact ⟨rfl,(outcome_copied formatter span.2).symm⟩

theorem spans_numbered (bare : Bool) (formatter : Nat → String) (counter : Nat) (spans : List SqlSpan) :
    outcome formatter (spansPieces bare counter spans) =
      outcome formatter (numbered counter (spans.flatMap (spanCuts (codeScan bare)))).1 := by
  induction spans generalizing counter with
  | nil => rfl
  | cons span spans ih =>
    obtain ⟨last,pieces⟩ := span_numbered bare formatter counter span
    rw [List.flatMap_cons,numbered_append]
    simp only [spansPieces]
    rw [outcome_append,outcome_append,pieces,ih,last]

theorem rewritePlaceholders_numbered [CaseMap] (sql : String) (dialect : SqlDialect) (formatter : Nat → String) :
    rewritePlaceholdersIndexed sql dialect formatter = (generatorLexer dialect).rewrite sql formatter := by
  have same := spans_numbered (dialectAllowsBareQuestionMarkPlaceholder dialect) formatter 0
    (tokenizeSql sql.toList dialect)
  exact same

theorem outcome_marked (counter : Nat) (cuts : PlaceholderCuts) :
    (outcome (fun _ => "(") (numbered counter cuts).1).1 = String.ofList (spelled (fun _ => ['(']) cuts) := by
  induction cuts generalizing counter with
  | nil => rfl
  | cons cut cuts ih =>
    have next (piece : Piece) (text : List Char) (written : piece.written (fun _ => "(") = text) (counter : Nat) :
        (outcome (fun _ => "(") (piece :: (numbered counter cuts).1)).1 =
          String.ofList (text ++ spelled (fun _ => ['(']) cuts) := by
      have rest := congrArg String.toList (ih counter)
      rw [outcome,String.toList_ofList,String.toList_ofList] at rest
      rw [outcome,List.flatMap_cons,written,rest]
    have mark : "(".toList = ['('] := by decide
    cases cut with
    | plain c => exact next (.copied [c]) [c] rfl counter
    | site token =>
      rw [numbered]
      split
      · exact next (.placeholder (counter + 1)) ['('] mark (counter + 1)
      · exact next (.placeholder _) ['('] mark counter

-- Lexers that rewrite alike in every format find the same placeholders.
theorem lexers_agree_iff (lexer other : DialectLexer) (sql : String) :
    (∀ formatter,lexer.rewrite sql formatter = other.rewrite sql formatter) ↔
      ∀ before,Finds id (lexer.cuts sql.toList) before ↔ Finds id (other.cuts sql.toList) before := by
  have sources : spelled id (lexer.cuts sql.toList) = spelled id (other.cuts sql.toList) := by
    rw [lexer.whole,other.whole]
  constructor
  · intro same
    have marked := congrArg Prod.fst (same fun _ => "(")
    have texts := congrArg String.toList (((outcome_marked 0 _).symm.trans marked).trans (outcome_marked 0 _))
    rw [String.toList_ofList,String.toList_ofList] at texts
    have cuts := marks_unique separableTokens (fun _ _ isToken => tokens_unmarked isToken) (lexer.delimited _)
      (other.delimited _) sources texts
    intro before
    rw [cuts]
  · intro places
    have cuts := places_unique separableTokens (lexer.delimited _) (other.delimited _) sources places
    intro formatter
    rw [DialectLexer.rewrite,DialectLexer.rewrite,cuts]

section MySql

-- A backslash takes the next character with it.
def backslashQuoted (close : Char) : List Char → List Char × List Char
  | [] => ([],[])
  | [c] => ([c],[])
  | c :: d :: cs =>
    if c = '\\' ∨ (c = close ∧ d = close) then
      let (text,rest) := backslashQuoted close cs
      (c :: d :: text,rest)
    else if c = close then ([c],d :: cs)
    else
      let (text,rest) := backslashQuoted close (d :: cs)
      (c :: text,rest)

-- Two dashes want white space behind them, comments do not nest, and the text of
-- a version comment is code.
def readMySqlSpan : Scanner.Reader SqlSpanKind
  | '-' :: '-' :: cs => if cs.head?.all isSpace then spanOf .lineComment ['-','-'] (Scanner.line cs) else none
  | '/' :: '*' :: cs =>
    if cs.head? = some '!' then none else spanOf .blockComment ['/','*'] (Scanner.through ['*','/'] cs)
  | c :: cs =>
    if c = '#' then spanOf .lineComment [c] (Scanner.line cs)
    else if c = '\'' then spanOf .singleQuoted [c] (backslashQuoted c cs)
    else if c = '"' then spanOf .doubleQuoted [c] (backslashQuoted c cs)
    else if c.toNat = 0x60 then spanOf .backtick [c] (Scanner.quoted c cs)
    else none
  | [] => none

def isMySqlIdentifierCharacter (c : Char) : Bool :=
  asciiIsLower c || asciiIsUpper c || isDigit c || c = '_' || c = '$' || 0x80 ≤ c.toNat

def questionCuts : List Char → PlaceholderCuts
  | [] => []
  | c :: cs =>
    if c = '?' ∧ ¬cs.head?.any isMySqlIdentifierCharacter then .site ['?'] :: questionCuts cs
    else .plain c :: questionCuts cs

theorem backslashQuoted_append (close : Char) (cs : List Char) :
    (backslashQuoted close cs).1 ++ (backslashQuoted close cs).2 = cs := by
  fun_induction backslashQuoted close cs with
  | case1 => rfl
  | case2 => rfl
  | case3 _ _ _ _ _ _ is ih => simpa [is] using ih
  | case4 => rfl
  | case5 _ _ _ _ _ _ _ is ih => simpa [is] using ih

theorem spanOf_nonempty {kind kind' : SqlSpanKind} {c : Char} {opening text rest : List Char}
    {parts : List Char × List Char} (found : spanOf kind (c :: opening) parts = some (kind',text,rest)) : text ≠ [] := by
  cases found
  exact List.cons_ne_nil _ _

theorem readMySqlSpan_splits : Scanner.Reader.Splits readMySqlSpan := by
  constructor
  · intro cs kind text rest found
    unfold readMySqlSpan at found
    split at found
    · split at found
      · exact spanOf_whole (Scanner.line_append _) found
      · cases found
    · split at found
      · cases found
      · exact spanOf_whole (Scanner.through_append _ _) found
    · split at found
      · exact spanOf_whole (Scanner.line_append _) found
      split at found
      · exact spanOf_whole (backslashQuoted_append _ _) found
      split at found
      · exact spanOf_whole (backslashQuoted_append _ _) found
      split at found
      · exact spanOf_whole (Scanner.quoted_append _ _) found
      · cases found
    · cases found
  · intro cs kind text rest found
    unfold readMySqlSpan at found
    repeat' split at found
    all_goals first | cases found; done | exact spanOf_nonempty found

theorem readMySqlSpan_starts {cs text rest : List Char} {kind : SqlSpanKind}
    (found : readMySqlSpan cs = some (kind,text,rest)) : kind ≠ .code ∧ Stops isDigit cs := by
  unfold readMySqlSpan at found
  split at found
  · split at found
    · exact ⟨spanOf_kind found (by decide),stops_cons (by decide) _⟩
    · cases found
  · split at found
    · cases found
    · exact ⟨spanOf_kind found (by decide),stops_cons (by decide) _⟩
  · split at found
    · rename_i hash
      rw [hash]
      exact ⟨spanOf_kind found (by decide),stops_cons (by decide) _⟩
    split at found
    · rename_i quote
      rw [quote]
      exact ⟨spanOf_kind found (by decide),stops_cons (by decide) _⟩
    split at found
    · rename_i quote
      rw [quote]
      exact ⟨spanOf_kind found (by decide),stops_cons (by decide) _⟩
    split at found
    · rename_i tick
      exact ⟨spanOf_kind found (by decide),stops_cons (by simp [isDigit,tick]) _⟩
    · cases found
  · cases found

theorem digit_identifier {c : Char} (other : isMySqlIdentifierCharacter c = false) : isDigit c = false := by
  simp only [isMySqlIdentifierCharacter,Bool.or_eq_false_iff] at other
  exact other.1.1.1.2

theorem questionCuts_whole (text : List Char) : spelled id (questionCuts text) = text := by
  induction text with
  | nil => rfl
  | cons c cs ih =>
    rw [questionCuts]
    split
    next question => rw [spelled_site,ih,question.1]; rfl
    next => rw [spelled_plain,ih]

def mySqlScan : CodeScan where
  cuts := questionCuts
  whole := questionCuts_whole
  delimited text more stops delimited := by
    induction text with
    | nil => exact delimited
    | cons c cs ih =>
      rw [questionCuts]
      split
      next question =>
        rw [List.cons_append]
        refine ⟨questionToken ?_,ih⟩
        rw [spelled_append,questionCuts_whole]
        cases cs with
        | nil => exact stops
        | cons d cs =>
          have other : isMySqlIdentifierCharacter d = false := by simpa using question.2
          exact stops_cons (digit_identifier other) _
      next => exact ih

def mySqlLexer : DialectLexer :=
  SpanReader.lexer ⟨readMySqlSpan,readMySqlSpan_splits,fun _ _ _ _ found => readMySqlSpan_starts found⟩ mySqlScan

end MySql

section Examples
local instance liveAscii : CaseMap := ascii

def escapedQuote : String := "SELECT id FROM t WHERE name = 'it\\'s' AND id = ?"

end Examples
end Scythe
