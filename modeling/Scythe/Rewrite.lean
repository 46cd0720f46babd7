import Scythe.Lib.Scanner
import Scythe.Lib.Text
import Scythe.Types

-- How the code generators find the placeholders of a query: over its text, with
-- no look at the syntax tree.
namespace Scythe
open Text

inductive SqlSpanKind where
  | code
  | lineComment
  | blockComment
  | singleQuoted
  | doubleQuoted
  | backtick
  | bracketed
  | dollarQuoted
  deriving DecidableEq,Repr

abbrev SqlSpan := SqlSpanKind × List Char

section Tokenize
variable [CaseMap]

-- The delimiter that a `$` opens, without that `$`.
def matchDollarQuoteOpen (cs : List Char) : Option (List Char × List Char) :=
  match cs with
  | '$' :: rest => some (['$'],rest)
  | _ =>
    let isTag := fun c => CaseMap.isAlphanumeric c || c = '_'
    match cs.takeWhile isTag,cs.dropWhile isTag with
    | first :: tag,'$' :: rest => if isDigit first then none else some (first :: tag ++ ['$'],rest)
    | _,_ => none

def spanOf (kind : SqlSpanKind) (opening : List Char) (parts : List Char × List Char) :
    Option (SqlSpanKind × List Char × List Char) := some (kind,opening ++ parts.1,parts.2)

def readSpan (dialect : SqlDialect) : Scanner.Reader SqlSpanKind
  | '-' :: '-' :: cs => spanOf .lineComment ['-','-'] (Scanner.line cs)
  | '/' :: '*' :: cs => spanOf .blockComment ['/','*'] (Scanner.block 1 cs)
  | '\'' :: cs => spanOf .singleQuoted ['\''] (Scanner.quoted '\'' cs)
  | '"' :: cs => spanOf .doubleQuoted ['"'] (Scanner.quoted '"' cs)
  | '$' :: cs => (matchDollarQuoteOpen cs).bind fun (delimiter,rest) =>
    spanOf .dollarQuoted ('$' :: delimiter) (Scanner.through ('$' :: delimiter) rest)
  | c :: cs =>
    if c.toNat = 0x60 ∧ dialect = .mySQL then spanOf .backtick [c] (Scanner.quoted c cs)
    else if c = '#' ∧ dialect = .mySQL then spanOf .lineComment [c] (Scanner.line cs)
    else if c = '[' ∧ dialect = .msSql then spanOf .bracketed [c] (Scanner.quoted ']' cs)
    else none
  | [] => none

def tokenizeSql (sql : List Char) (dialect : SqlDialect) : List SqlSpan :=
  Scanner.spans (readSpan dialect) .code sql

end Tokenize

-- What rewriting makes of a piece of text: it is copied, or a placeholder is
-- written in the target's format.
inductive Piece where
  | copied (text : List Char)
  | placeholder (position : Nat)
  deriving DecidableEq,Repr

def Piece.position? : Piece → Option Nat
  | .copied _ => none
  | .placeholder position => some position

def Piece.written (formatter : Nat → String) : Piece → List Char
  | .copied text => text
  | .placeholder position => (formatter position).toList

def unambiguousOperators : List String := ["?-|","?||","?|","?&","?-","@?"]

def matchUnambiguousOperator (cs : List Char) : Option (List Char × List Char) :=
  unambiguousOperators.findSome? fun op => (op.toList.isPrefixOf? cs).map fun rest => (op.toList,rest)

-- The number after a `$` or, past 32 bits, zero.
def placeholderNumber (digits : List Char) : Nat := (parseUnsigned 32 (String.ofList digits)).getD 0

def rewriteCodeSpanPlaceholders (bareQuestionIsPlaceholder : Bool) :
    Nat → Nat → List Char → List Piece × Nat
  | 0,counter,_ => ([],counter)
  | _,counter,[] => ([],counter)
  | fuel + 1,counter,c :: cs =>
    let again := rewriteCodeSpanPlaceholders bareQuestionIsPlaceholder fuel
    let digitNext := (cs.head?.map isDigit).getD false
    match matchUnambiguousOperator (c :: cs) with
    | some (operator,rest) =>
      let (pieces,last) := again counter rest
      (.copied operator :: pieces,last)
    | none =>
      if c = '$' ∧ digitNext then
        let (pieces,last) := again counter (cs.dropWhile isDigit)
        (.placeholder (placeholderNumber (cs.takeWhile isDigit)) :: pieces,last)
      else if c = '?' ∧ bareQuestionIsPlaceholder ∧ ¬digitNext then
        let (pieces,last) := again (counter + 1) cs
        (.placeholder (counter + 1) :: pieces,last)
      else
        let (pieces,last) := again counter cs
        (.copied [c] :: pieces,last)

def dialectAllowsBareQuestionMarkPlaceholder (dialect : SqlDialect) : Bool := dialect ≠ .postgreSQL

def spanPieces (bareQuestionIsPlaceholder : Bool) (counter : Nat) (span : SqlSpan) : List Piece × Nat :=
  if span.1 = .code then rewriteCodeSpanPlaceholders bareQuestionIsPlaceholder span.2.length counter span.2
  else ([.copied span.2],counter)

def spansPieces (bareQuestionIsPlaceholder : Bool) : Nat → List SqlSpan → List Piece
  | _,[] => []
  | counter,span :: spans =>
    let (pieces,counter) := spanPieces bareQuestionIsPlaceholder counter span
    pieces ++ spansPieces bareQuestionIsPlaceholder counter spans

-- A parameter as the code generators resolve it; only its type is read here.
structure ResolvedParam where
  neutralType : String
  deriving DecidableEq,Repr

-- `none` is a panic: no analyzed parameter stands at the position.
def resolvedParamForPosition (analyzedParams : List AnalyzedParam) (resolved : List ResolvedParam)
    (position : Nat) : Option ResolvedParam :=
  (analyzedParams.findIdx? fun p => p.position = (position : Int)).bind fun idx => resolved[idx]?

section Rewrite
variable [CaseMap]

def rewritten (sql : String) (dialect : SqlDialect) : List Piece :=
  spansPieces (dialectAllowsBareQuestionMarkPlaceholder dialect) 0 (tokenizeSql sql.toList dialect)

def rewritePlaceholdersIndexed (sql : String) (dialect : SqlDialect) (formatter : Nat → String) :
    String × List Nat :=
  let pieces := rewritten sql dialect
  (String.ofList (pieces.flatMap (·.written formatter)),pieces.filterMap (·.position?))

def typedPlaceholder (castEnums : Bool) (formatter : Nat → String) (position : Nat) (param : ResolvedParam) : String :=
  let placeholder := formatter position
  match castEnums,stripPrefix param.neutralType "enum::" with
  | true,some enumType => placeholder ++ "::" ++ enumType
  | _,_ =>
    match stripPrefix param.neutralType "composite::" with
    | some compositeType => placeholder ++ "::text::" ++ compositeType
    | none => placeholder

def Piece.typed (analyzedParams : List AnalyzedParam) (resolvedParams : List ResolvedParam) (castEnums : Bool)
    (formatter : Nat → String) : Piece → Option (List Char)
  | .copied text => some text
  | .placeholder position => (resolvedParamForPosition analyzedParams resolvedParams position).map fun param =>
    (typedPlaceholder castEnums formatter position param).toList

-- `none` is the panic of a lookup.
def rewritePgTypedPlaceholders (sql : String) (analyzedParams : List AnalyzedParam)
    (resolvedParams : List ResolvedParam) (castEnums : Bool) (formatter : Nat → String) :
    Option (String × List Nat) :=
  let pieces := rewritten sql .postgreSQL
  (pieces.mapM' (Piece.typed analyzedParams resolvedParams castEnums formatter)).map fun written =>
    (String.ofList written.flatten,pieces.filterMap (·.position?))

end Rewrite

theorem spanOf_whole {kind kind' : SqlSpanKind} {opening cs : List Char} {parts : List Char × List Char}
    {text rest : List Char} (whole : parts.1 ++ parts.2 = cs)
    (found : spanOf kind opening parts = some (kind',text,rest)) : text ++ rest = opening ++ cs := by
  cases found
  rw [List.append_assoc,whole]

theorem mapM'_isSome_iff {f : α → Option β} {items : List α} :
    (items.mapM' f).isSome ↔ ∀ item ∈ items,(f item).isSome := by
  induction items with
  | nil => simp
  | cons item items ih =>
    rw [List.mapM'_cons]
    cases is : f item with
    | none => simp [is]
    | some value =>
      cases tail : items.mapM' f with
      | none => simp_all
      | some values => simp_all

theorem resolvedParam_isSome {analyzedParams : List AnalyzedParam} {resolved : List ResolvedParam}
    (aligned : resolved.length = analyzedParams.length) {position : Nat} :
    (resolvedParamForPosition analyzedParams resolved position).isSome ↔
      (position : Int) ∈ analyzedParams.map (·.position) := by
  unfold resolvedParamForPosition
  rw [List.mem_map]
  constructor
  · intro found
    obtain ⟨param,is⟩ := Option.isSome_iff_exists.mp found
    obtain ⟨idx,at',-⟩ := Option.bind_eq_some_iff.mp is
    obtain ⟨inside,equal,-⟩ := List.findIdx?_eq_some_iff_getElem.mp at'
    exact ⟨analyzedParams[idx],List.getElem_mem inside,by simpa using equal⟩
  · rintro ⟨param,member,equal⟩
    cases at' : analyzedParams.findIdx? fun p => p.position = (position : Int) with
    | none =>
      have absent := List.findIdx?_eq_none_iff.mp at' param member
      simp [equal] at absent
    | some idx =>
      obtain ⟨inside,-⟩ := List.findIdx?_eq_some_iff_getElem.mp at'
      simp [aligned,inside]

section Lemmas
variable [CaseMap]

theorem matchDollarQuoteOpen_whole {cs delimiter rest : List Char}
    (found : matchDollarQuoteOpen cs = some (delimiter,rest)) : delimiter ++ rest = cs := by
  unfold matchDollarQuoteOpen at found
  split at found
  · cases found
    rfl
  · dsimp only at found
    split at found
    · rename_i first tag rest' taken left
      split at found
      · cases found
      · cases found
        have whole := List.takeWhile_append_dropWhile (p := fun c => CaseMap.isAlphanumeric c || decide (c = '_')) (l := cs)
        rw [taken,left] at whole
        simpa using whole
    · cases found

theorem readSpan_splits (dialect : SqlDialect) : (readSpan dialect).Splits := by
  constructor
  · intro cs kind text rest found
    unfold readSpan at found
    split at found
    · exact spanOf_whole (Scanner.line_append _) found
    · exact spanOf_whole (Scanner.block_append _ _) found
    · exact spanOf_whole (Scanner.quoted_append _ _) found
    · exact spanOf_whole (Scanner.quoted_append _ _) found
    · obtain ⟨⟨delimiter,inner⟩,opened,spanned⟩ := Option.bind_eq_some_iff.mp found
      have whole := spanOf_whole (Scanner.through_append _ _) spanned
      rw [whole,List.cons_append,matchDollarQuoteOpen_whole opened]
    · split at found
      · exact spanOf_whole (Scanner.quoted_append _ _) found
      split at found
      · exact spanOf_whole (Scanner.line_append _) found
      split at found
      · exact spanOf_whole (Scanner.quoted_append _ _) found
      · cases found
    · cases found
  · intro cs kind text rest found
    have opened : ∀ {kind' : SqlSpanKind} {c : Char} {opening : List Char} {parts : List Char × List Char},
        spanOf kind' (c :: opening) parts = some (kind,text,rest) → text ≠ [] := by
      intro kind' c opening parts is
      cases is
      exact List.cons_ne_nil _ _
    unfold readSpan at found
    split at found
    · exact opened found
    · exact opened found
    · exact opened found
    · exact opened found
    · obtain ⟨⟨delimiter,inner⟩,-,spanned⟩ := Option.bind_eq_some_iff.mp found
      exact opened spanned
    · split at found
      · exact opened found
      split at found
      · exact opened found
      split at found
      · exact opened found
      · cases found
    · cases found

-- The spans concatenate back to the text, whatever is in it.
theorem tokenizeSql_whole (sql : List Char) (dialect : SqlDialect) :
    Scanner.concatenation (tokenizeSql sql dialect) = sql := Scanner.spans_whole (readSpan_splits dialect) .code sql

-- Typed rewriting ends well exactly when each position that it comes by has its
-- parameter.
theorem rewritePgTyped_isSome {sql : String} {analyzedParams : List AnalyzedParam} {castEnums : Bool}
    {resolvedParams : List ResolvedParam} {formatter : Nat → String} :
    (rewritePgTypedPlaceholders sql analyzedParams resolvedParams castEnums formatter).isSome ↔
      ∀ position ∈ (rewritePlaceholdersIndexed sql .postgreSQL formatter).2,
        (resolvedParamForPosition analyzedParams resolvedParams position).isSome := by
  unfold rewritePgTypedPlaceholders rewritePlaceholdersIndexed
  rw [Option.isSome_map,mapM'_isSome_iff]
  simp only [List.mem_filterMap]
  constructor
  · rintro typed position ⟨piece,member,is⟩
    cases piece with
    | copied text => cases is
    | placeholder found =>
      cases is
      simpa [Piece.typed] using typed _ member
  · intro resolved piece member
    cases piece with
    | copied text => rfl
    | placeholder found => simpa [Piece.typed] using resolved found ⟨_,member,rfl⟩

end Lemmas

end Scythe
