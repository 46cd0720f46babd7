import Scythe.Lib.Splice
import Mathlib.Data.List.TakeWhile
import Scythe.Tokens

-- The rewriting that turns a comparison with an optional parameter off while the
-- parameter is NULL.
namespace Scythe
open Text Splice

section
variable [CaseMap]

def isIdentChar (c : Char) : Bool := CaseMap.isAlphanumeric c || c = '_' || c = '.'

def isReservedNonColumnKeyword (ident : List Char) : Bool :=
  asciiUppercase (String.ofList ident) ∈ ["NOT","AND","OR","IS","NULL"]

-- The words of a compound operator stand apart by any white space, and by some.
def matchOpTokens : List (List Char) → List Char → Option (List Char)
  | [],cs => some cs
  | [word],cs => word.isPrefixOf? cs
  | word :: words,cs =>
    match word.isPrefixOf? cs with
    | none => none
    | some rest =>
      let next := rest.dropWhile isSpace
      if next.length = rest.length then none else matchOpTokens words next

def opWords (op : String) : List (List Char) := splitChars ' ' op.toList

-- The column and what follows the match.
def tryMatchColOpPh (op : String) (placeholder : List Char) (previous : Option Char) (cs : List Char) :
    Option (List Char × List Char) :=
  let ident := cs.takeWhile isIdentChar
  if ident = [] || previous.any isIdentChar || isReservedNonColumnKeyword ident then none else
  match matchOpTokens (opWords op) ((cs.dropWhile isIdentChar).dropWhile isSpace) with
  | none => none
  | some afterOp =>
    match placeholder.isPrefixOf? (afterOp.dropWhile isSpace) with
    | none => none
    | some rest => if rest.head?.any isDigit then none else some (ident,rest)

def tryMatchPhOpCol (op : String) (placeholder : List Char) (previous : Option Char) (cs : List Char) :
    Option (List Char × List Char) :=
  if previous.any fun c => c = '$' || isDigit c then none else
  match placeholder.isPrefixOf? cs with
  | none => none
  | some afterPlaceholder =>
    if afterPlaceholder.head?.any isDigit then none else
    match matchOpTokens (opWords op) (afterPlaceholder.dropWhile isSpace) with
    | none => none
    | some afterOp =>
      let operand := afterOp.dropWhile isSpace
      let ident := operand.takeWhile isIdentChar
      if ident = [] || isReservedNonColumnKeyword ident then none
      else some (ident,operand.dropWhile isIdentChar)

def tryMatch (op : String) (placeholder : List Char) (previous : Option Char) (cs : List Char) :
    Option (List Char × List Char) :=
  match tryMatchColOpPh op placeholder previous cs with
  | some found => some found
  | none => tryMatchPhOpCol op placeholder previous cs

def guarded (placeholder column : List Char) (op : String) : List Char :=
  '(' :: placeholder ++ " IS NULL OR ".toList ++ column ++ ' ' :: op.toList ++ ' ' :: placeholder ++ [')']

-- The last character of a match is the one before whatever follows it.
def rewriteComparisonWithin (op : String) (placeholder : List Char) : Nat → Option Char → List Char → List Char
  | 0,_,cs => cs
  | _,_,[] => []
  | fuel + 1,previous,c :: cs =>
    match tryMatch op placeholder previous (c :: cs) with
    | some (column,rest) =>
      let last := ((c :: cs).take ((c :: cs).length - rest.length)).getLast?
      guarded placeholder column op ++ rewriteComparisonWithin op placeholder fuel last rest
    | none => c :: rewriteComparisonWithin op placeholder fuel (some c) cs

-- Every step goes at least one character on.
def rewriteComparison (op : String) (placeholder sql : List Char) : List Char :=
  rewriteComparisonWithin op placeholder sql.length none sql

def comparisonOperators : List String :=
  [">=","<=","<>","!=",">","<","=","NOT ILIKE","not ilike","NOT LIKE","not like","ILIKE","ilike","LIKE","like"]

def placeholderOf (position : Int) : List Char := '$' :: (toString position).toList

def rewriteOptionalParam (params : List AnalyzedParam) (sql : List Char) (optName : String) : List Char :=
  match params.find? fun param => param.name = optName with
  | none => sql
  | some param =>
    comparisonOperators.foldl (fun sql op => rewriteComparison op (placeholderOf param.position) sql) sql

def rewriteOptionalParams (sql : String) (optionalParams : List String) (params : List AnalyzedParam) : String :=
  String.ofList (optionalParams.foldl (rewriteOptionalParam params) sql.toList)

-- Where the rewriting finds a comparison: the operand that it takes for a
-- column, and all of the text that it replaces.
structure Site where
  column : List Char
  text : List Char
  deriving DecidableEq,Repr

def scanWithin (op : String) (placeholder : List Char) : Nat → Option Char → List Char → List (Cut Char Site)
  | 0,_,cs => cs.map .plain
  | _,_,[] => []
  | fuel + 1,previous,c :: cs =>
    match tryMatch op placeholder previous (c :: cs) with
    | some (column,rest) =>
      let text := (c :: cs).take ((c :: cs).length - rest.length)
      .site ⟨column,text⟩ :: scanWithin op placeholder fuel text.getLast? rest
    | none => .plain c :: scanWithin op placeholder fuel (some c) cs

def scan (op : String) (placeholder sql : List Char) : List (Cut Char Site) :=
  scanWithin op placeholder sql.length none sql

def Site.guarded (op : String) (placeholder : List Char) (site : Site) : List Char :=
  Scythe.guarded placeholder site.column op

-- The words of an operator, apart by white space where there are several.
inductive SpelledWords : List (List Char) → List Char → Prop
  | last (word : List Char) : SpelledWords [word] word
  | cons {word next : List Char} {words : List (List Char)} {gap text : List Char} (some : gap ≠ [])
      (space : ∀ c ∈ gap,isSpace c = true) (rest : SpelledWords (next :: words) text) :
      SpelledWords (word :: next :: words) (word ++ gap ++ text)

structure Operand (column : List Char) : Prop where
  some : column ≠ []
  ident : ∀ c ∈ column,isIdentChar c = true

-- One comparison, its operator between white space or none.
def ComparisonText (op : String) (left right text : List Char) : Prop :=
  ∃ before spelled after,(∀ c ∈ before,isSpace c = true) ∧ (∀ c ∈ after,isSpace c = true) ∧
    SpelledWords (opWords op) spelled ∧ text = left ++ before ++ spelled ++ after ++ right

-- The operand stands on either side of the placeholder.
def IsSite (op : String) (placeholder : List Char) (site : Site) : Prop :=
  Operand site.column ∧ (ComparisonText op site.column placeholder site.text ∨
    ComparisonText op placeholder site.column site.text)

omit [CaseMap] in
theorem isPrefixOf_append {word cs rest : List Char} (found : word.isPrefixOf? cs = some rest) : cs = word ++ rest := by
  induction word generalizing cs with
  | nil =>
    rw [List.isPrefixOf?] at found
    exact Option.some.inj found
  | cons w word ih =>
    cases cs with
    | nil => cases found
    | cons c cs =>
      rw [List.isPrefixOf?] at found
      split at found
      next same =>
        rw [ih found,eq_of_beq same,List.cons_append]
      next => cases found

omit [CaseMap] in
theorem dropWhile_shorter {p : Char → Bool} {cs : List Char} (shorter : (cs.dropWhile p).length ≠ cs.length) :
    cs.takeWhile p ≠ [] := by
  intro none
  apply shorter
  have whole := congrArg List.length (List.takeWhile_append_dropWhile (p := p) (l := cs))
  rw [none,List.nil_append] at whole
  exact whole

omit [CaseMap] in
theorem mem_takeWhile {p : Char → Bool} {cs : List Char} : ∀ c ∈ cs.takeWhile p,p c = true :=
  fun _ member => List.mem_takeWhile_imp member

omit [CaseMap] in
theorem matchOpTokens_spec {words : List (List Char)} {cs rest : List Char} (some : words ≠ [])
    (found : matchOpTokens words cs = .some rest) : ∃ text,SpelledWords words text ∧ cs = text ++ rest := by
  induction words generalizing cs with
  | nil => exact absurd rfl some
  | cons word words ih =>
    cases words with
    | nil =>
      rw [matchOpTokens] at found
      exact ⟨word,.last word,isPrefixOf_append found⟩
    | cons next words =>
      rw [matchOpTokens] at found
      · cases first : word.isPrefixOf? cs with
        | none =>
          rw [first] at found
          cases found
        | some afterWord =>
          rw [first] at found
          dsimp only at found
          split at found
          next => cases found
          next apart =>
            obtain ⟨text,spelled,equal⟩ := ih (by simp) found
            refine ⟨word ++ afterWord.takeWhile isSpace ++ text,.cons (dropWhile_shorter apart) mem_takeWhile spelled,?_⟩
            rw [isPrefixOf_append first,List.append_assoc,List.append_assoc,←equal,List.takeWhile_append_dropWhile]
      · simp

theorem tryMatchColOpPh_spec {op : String} {placeholder cs column rest : List Char} {previous : Option Char}
    (words : opWords op ≠ []) (found : tryMatchColOpPh op placeholder previous cs = some (column,rest)) :
    ∃ text,cs = text ++ rest ∧ IsSite op placeholder ⟨column,text⟩ := by
  unfold tryMatchColOpPh at found
  dsimp only at found
  split at found
  next => cases found
  next kept =>
    simp only [Bool.or_eq_true,decide_eq_true_eq,not_or] at kept
    cases operator : matchOpTokens (opWords op) ((cs.dropWhile isIdentChar).dropWhile isSpace) with
    | none =>
      rw [operator] at found
      cases found
    | some afterOp =>
      rw [operator] at found
      dsimp only at found
      cases ends : placeholder.isPrefixOf? (afterOp.dropWhile isSpace) with
      | none =>
        rw [ends] at found
        cases found
      | some tail =>
        rw [ends] at found
        dsimp only at found
        split at found
        next => cases found
        next =>
          obtain ⟨rfl,rfl⟩ := Prod.mk.inj (Option.some.inj found)
          obtain ⟨spelled,isSpelled,operatorText⟩ := matchOpTokens_spec words operator
          have endText := isPrefixOf_append ends
          have text : cs = (cs.takeWhile isIdentChar ++ (cs.dropWhile isIdentChar).takeWhile isSpace ++ spelled ++
              afterOp.takeWhile isSpace ++ placeholder) ++ tail := by
            simp only [List.append_assoc]
            rw [←endText,List.takeWhile_append_dropWhile,←operatorText,List.takeWhile_append_dropWhile,
              List.takeWhile_append_dropWhile]
          refine ⟨_,text,⟨kept.1.1,mem_takeWhile⟩,Or.inl ?_⟩
          exact ⟨_,_,_,mem_takeWhile,mem_takeWhile,isSpelled,rfl⟩

theorem tryMatchPhOpCol_spec {op : String} {placeholder cs column rest : List Char} {previous : Option Char}
    (words : opWords op ≠ []) (found : tryMatchPhOpCol op placeholder previous cs = some (column,rest)) :
    ∃ text,cs = text ++ rest ∧ IsSite op placeholder ⟨column,text⟩ := by
  unfold tryMatchPhOpCol at found
  split at found
  next => cases found
  next =>
    cases starts : placeholder.isPrefixOf? cs with
    | none =>
      rw [starts] at found
      cases found
    | some afterPlaceholder =>
      rw [starts] at found
      dsimp only at found
      split at found
      next => cases found
      next =>
        cases operator : matchOpTokens (opWords op) (afterPlaceholder.dropWhile isSpace) with
        | none =>
          rw [operator] at found
          cases found
        | some afterOp =>
          rw [operator] at found
          dsimp only at found
          split at found
          next => cases found
          next kept =>
            cases found
            simp only [Bool.or_eq_true,decide_eq_true_eq,not_or] at kept
            obtain ⟨spelled,isSpelled,operatorText⟩ := matchOpTokens_spec words operator
            have startText := isPrefixOf_append starts
            have text : cs = (placeholder ++ afterPlaceholder.takeWhile isSpace ++ spelled ++
                afterOp.takeWhile isSpace ++ (afterOp.dropWhile isSpace).takeWhile isIdentChar) ++
                (afterOp.dropWhile isSpace).dropWhile isIdentChar := by
              simp only [List.append_assoc]
              rw [List.takeWhile_append_dropWhile,List.takeWhile_append_dropWhile,←operatorText,
                List.takeWhile_append_dropWhile,←startText]
            refine ⟨_,text,⟨kept.1,mem_takeWhile⟩,Or.inr ?_⟩
            exact ⟨_,_,_,mem_takeWhile,mem_takeWhile,isSpelled,rfl⟩

theorem tryMatch_spec {op : String} {placeholder cs column rest : List Char} {previous : Option Char}
    (words : opWords op ≠ []) (found : tryMatch op placeholder previous cs = some (column,rest)) :
    ∃ text,cs = text ++ rest ∧ IsSite op placeholder ⟨column,text⟩ := by
  unfold tryMatch at found
  cases first : tryMatchColOpPh op placeholder previous cs with
  | some matched =>
    rw [first] at found
    cases found
    exact tryMatchColOpPh_spec words first
  | none =>
    rw [first] at found
    exact tryMatchPhOpCol_spec words found

omit [CaseMap] in
theorem take_text (text rest : List Char) : (text ++ rest).take ((text ++ rest).length - rest.length) = text := by
  rw [List.length_append,Nat.add_sub_cancel,List.take_left]

theorem operand_head {column : List Char} (operand : Operand column) : ∃ c rest,column = c :: rest ∧ isIdentChar c = true := by
  cases column with
  | nil => exact absurd rfl operand.some
  | cons c rest => exact ⟨c,rest,rfl,operand.ident c List.mem_cons_self⟩

theorem site_nonempty {op : String} {placeholder : List Char} {site : Site} (some : placeholder ≠ [])
    (isSite : IsSite op placeholder site) : site.text ≠ [] := by
  obtain ⟨operand,⟨_,_,_,_,_,_,whole⟩ | ⟨_,_,_,_,_,_,whole⟩⟩ := isSite
  · simp [whole,operand.some]
  · simp [whole,some]

-- The scan cuts the text, the rewriting puts the guarded comparisons back, and
-- every site is a comparison.
theorem scanWithin_spec {op : String} {placeholder : List Char} (words : opWords op ≠ []) (some : placeholder ≠ [])
    {fuel : Nat} {previous : Option Char} {cs : List Char} (enough : cs.length ≤ fuel) :
    spelled Site.text (scanWithin op placeholder fuel previous cs) = cs ∧
      spelled (Site.guarded op placeholder) (scanWithin op placeholder fuel previous cs) =
        rewriteComparisonWithin op placeholder fuel previous cs ∧
      SitesIn (IsSite op placeholder) (scanWithin op placeholder fuel previous cs) := by
  induction fuel generalizing previous cs with
  | zero =>
    have none : cs = [] := List.length_eq_zero_iff.mp (Nat.le_zero.mp enough)
    subst none
    exact ⟨rfl,rfl,sitesIn_plains []⟩
  | succ fuel ih =>
    cases cs with
    | nil => exact ⟨rfl,rfl,sitesIn_plains []⟩
    | cons c cs =>
      rw [scanWithin,rewriteComparisonWithin]
      cases found : tryMatch op placeholder previous (c :: cs) with
      | none =>
        obtain ⟨source,target,sites⟩ := @ih (Option.some c) cs (Nat.le_of_succ_le_succ enough)
        refine ⟨?_,?_,?_⟩
        · rw [spelled_plain,source]
        · rw [spelled_plain,target]
        · intro site member
          rcases List.mem_cons.mp member with equal | later
          · cases equal
          · exact sites site later
      | some matched =>
        obtain ⟨column,rest⟩ := matched
        obtain ⟨text,whole,isSite⟩ := tryMatch_spec words found
        have taken : (c :: cs).take ((c :: cs).length - rest.length) = text := by
          rw [whole]
          exact take_text text rest
        have shorter : rest.length ≤ fuel := by
          have positive := List.length_pos_iff.mpr (site_nonempty some isSite)
          have total := congrArg List.length whole
          rw [List.length_append] at total
          dsimp only at positive
          omega
        dsimp only
        rw [taken]
        obtain ⟨source,target,sites⟩ := @ih text.getLast? rest shorter
        refine ⟨?_,?_,?_⟩
        · rw [spelled_site,source,whole]
        · rw [spelled_site,target]
          rfl
        · intro site member
          rcases List.mem_cons.mp member with equal | later
          · cases equal
            exact isSite
          · exact sites site later

theorem rewriteComparison_spec {op : String} {placeholder : List Char} (words : opWords op ≠ [])
    (some : placeholder ≠ []) (sql : List Char) :
    spelled Site.text (scan op placeholder sql) = sql ∧
      spelled (Site.guarded op placeholder) (scan op placeholder sql) = rewriteComparison op placeholder sql ∧
      SitesIn (IsSite op placeholder) (scan op placeholder sql) :=
  scanWithin_spec words some (Nat.le_refl _)

-- The operators are words of characters that are no white space.
def ProperWords (words : List (List Char)) : Prop := ∀ word ∈ words,word ≠ [] ∧ Stops isSpace word

structure ProperOperator (op : String) : Prop where
  some : opWords op ≠ []
  words : ProperWords (opWords op)

omit [CaseMap] in
theorem comparisonOperators_proper : ∀ op ∈ comparisonOperators,ProperOperator op := by
  have all : ∀ op ∈ comparisonOperators,opWords op ≠ [] ∧
      ∀ word ∈ opWords op,word ≠ [] ∧ word.head?.any isSpace = false := by decide
  intro op member
  obtain ⟨nonempty,each⟩ := all op member
  refine ⟨nonempty,?_⟩
  intro word inside
  obtain ⟨some,starts⟩ := each word inside
  refine ⟨some,?_⟩
  intro c head
  have first : word.head? = .some c := head
  rw [first] at starts
  exact starts

omit [CaseMap] in
theorem stops_append {p : Char → Bool} {text : List Char} (some : text ≠ []) (stops : Stops p text)
    (more : List Char) : Stops p (text ++ more) := by
  cases text with
  | nil => exact absurd rfl some
  | cons c text => exact stops

omit [CaseMap] in
theorem spelled_stops {words : List (List Char)} {text : List Char} (proper : ProperWords words)
    (isSpelled : SpelledWords words text) : text ≠ [] ∧ Stops isSpace text := by
  cases isSpelled with
  | last => exact proper text List.mem_cons_self
  | @cons word next words gap text some space rest =>
    have first := proper word List.mem_cons_self
    refine ⟨by simp [first.1],?_⟩
    rw [List.append_assoc]
    exact stops_append first.1 first.2 _

omit [CaseMap] in
theorem spelled_unique {words : List (List Char)} {text other : List Char} (proper : ProperWords words)
    (left : SpelledWords words text) (right : SpelledWords words other) {r r' : List Char}
    (equal : text ++ r = other ++ r') : text = other ∧ r = r' := by
  induction left generalizing other with
  | last word =>
    cases right with
    | last => exact ⟨rfl,List.append_cancel_left equal⟩
  | @cons word next words gap text some space rest ih =>
    cases right with
    | @cons _ _ _ gap' text' some' space' rest' =>
      have properRest : ProperWords (next :: words) := fun word member => proper word (List.mem_cons_of_mem _ member)
      simp only [List.append_assoc] at equal
      have afterWord := List.append_cancel_left equal
      have stopsLeft := spelled_stops properRest rest
      have stopsRight := spelled_stops properRest rest'
      obtain ⟨sameGap,afterGap⟩ := run_unique space space' (stops_append stopsLeft.1 stopsLeft.2 r)
        (stops_append stopsRight.1 stopsRight.2 r') afterWord
      obtain ⟨sameText,sameRest⟩ := ih properRest rest' afterGap
      exact ⟨by rw [sameGap,sameText],sameRest⟩

omit [CaseMap] in
-- One left and one right operand leave one way to read a comparison.
theorem comparisonText_unique {op : String} {left right text other : List Char} (proper : ProperWords (opWords op))
    (first : ComparisonText op left right text) (second : ComparisonText op left right other)
    (some : right ≠ []) (stops : Stops isSpace right) {r r' : List Char} (equal : text ++ r = other ++ r') :
    text = other := by
  obtain ⟨before,spelled,after,spaceBefore,spaceAfter,words,whole⟩ := first
  obtain ⟨before',spelled',after',spaceBefore',spaceAfter',words',whole'⟩ := second
  have equalText := equal
  rw [whole,whole'] at equalText
  simp only [List.append_assoc] at equalText
  have afterLeft := List.append_cancel_left equalText
  have stopsLeft := spelled_stops proper words
  have stopsRight := spelled_stops proper words'
  obtain ⟨sameBefore,afterBefore⟩ := run_unique spaceBefore spaceBefore' (stops_append stopsLeft.1 stopsLeft.2 _)
    (stops_append stopsRight.1 stopsRight.2 _) afterLeft
  obtain ⟨sameSpelled,afterSpelled⟩ := spelled_unique proper words words' afterBefore
  obtain ⟨sameAfter,-⟩ := run_unique spaceAfter spaceAfter' (stops_append some stops _) (stops_append some stops _)
    afterSpelled
  rw [whole,whole',sameBefore,sameSpelled,sameAfter]

theorem ordinary_not_ident (ordinary : OrdinaryCharacters) {c : Char}
    (other : c.toNat ∈ [0x20,0x24,0x28]) : isIdentChar c = false := by
  cases alphanumeric : CaseMap.isAlphanumeric c with
  | true =>
    have range := ordinary.letters c alphanumeric
    simp only [List.mem_cons,List.not_mem_nil,or_false] at other
    omega
  | false =>
    have underscore : c ≠ '_' := by
      intro is
      rw [is] at other
      revert other
      decide
    have dot : c ≠ '.' := by
      intro is
      rw [is] at other
      revert other
      decide
    simp [isIdentChar,alphanumeric,underscore,dot]

theorem ident_not_space (ordinary : OrdinaryCharacters) {c : Char} (ident : isIdentChar c = true) : isSpace c = false := by
  simp only [isIdentChar,Bool.or_eq_true,decide_eq_true_eq] at ident
  rcases ident with (alphanumeric | rfl) | rfl
  · exact ordinary.space c alphanumeric
  · decide
  · decide

structure ProperPlaceholder (placeholder : List Char) : Prop where
  dollar : ∃ digits,placeholder = '$' :: digits

theorem operand_stops (ordinary : OrdinaryCharacters) {column : List Char} (operand : Operand column) :
    Stops isSpace column := by
  obtain ⟨c,rest,rfl,ident⟩ := operand_head operand
  intro d member
  have same : c = d := Option.some.inj member
  rw [←same]
  exact ident_not_space ordinary ident

theorem sites_recognizable (ordinary : OrdinaryCharacters) {op : String} {placeholder : List Char}
    (proper : ProperOperator op) (isPlaceholder : ProperPlaceholder placeholder) :
    Recognizable (IsSite op placeholder) Site.text (Site.guarded op placeholder) '(' where
  marked site _ := ⟨_,rfl⟩
  unmarked site isSite := by
    obtain ⟨digits,dollar⟩ := isPlaceholder.dollar
    obtain ⟨operand,⟨_,_,_,_,_,_,whole⟩ | ⟨_,_,_,_,_,_,whole⟩⟩ := isSite
    · obtain ⟨c,rest,first,ident⟩ := operand_head operand
      rw [first] at whole
      refine ⟨c,_,whole,?_⟩
      intro is
      rw [is,ordinary_not_ident ordinary (by decide)] at ident
      cases ident
    · rw [dollar] at whole
      exact ⟨'$',_,whole,by decide⟩
  determined site site' r r' t t' isSite isSite' sources targets := by
    obtain ⟨digits,dollar⟩ := isPlaceholder.dollar
    obtain ⟨operand,shape⟩ := isSite
    obtain ⟨operand',shape'⟩ := isSite'
    have spaceStops (text : List Char) : Stops isIdentChar (' ' :: text) := by
      intro c member
      have same : ' ' = c := Option.some.inj member
      rw [←same]
      exact ordinary_not_ident ordinary (by decide)
    have sameColumn : site.column = site'.column := by
      simp only [Site.guarded,guarded,List.cons_append,List.append_assoc] at targets
      have afterMark := (List.cons.inj targets).2
      have afterPlaceholder := List.append_cancel_left afterMark
      have afterGuard := List.append_cancel_left afterPlaceholder
      exact (run_unique operand.ident operand'.ident (spaceStops _) (spaceStops _) afterGuard).1
    have dollarStops : Stops isSpace placeholder := by
      intro c member
      rw [dollar] at member
      have same : '$' = c := Option.some.inj member
      rw [←same]
      decide
    have differs {column text other : List Char} (isOperand : Operand column)
        (first : ∃ rest,text = column ++ rest) (second : ∃ rest,other = placeholder ++ rest)
        {r r' : List Char} (equal : text ++ r = other ++ r') : False := by
      obtain ⟨rest,isText⟩ := first
      obtain ⟨rest',isOther⟩ := second
      obtain ⟨c,more,isColumn,ident⟩ := operand_head isOperand
      rw [isText,isOther,isColumn,dollar] at equal
      have isDollar : c = '$' := (List.cons.inj equal).1
      rw [isDollar,ordinary_not_ident ordinary (by decide)] at ident
      cases ident
    have begins {left right text : List Char} (shape : ComparisonText op left right text) :
        ∃ rest,text = left ++ rest := by
      obtain ⟨before,spelled,after,-,-,-,whole⟩ := shape
      exact ⟨before ++ spelled ++ after ++ right,by rw [whole]; simp only [List.append_assoc]⟩
    have sameText : site.text = site'.text := by
      rcases shape with shape | shape
      · rcases shape' with shape' | shape'
        · rw [←sameColumn] at shape'
          exact comparisonText_unique proper.words shape shape' (by simp [dollar]) dollarStops sources
        · exact (differs operand (begins shape) (begins shape') sources).elim
      · rcases shape' with shape' | shape'
        · exact (differs operand' (begins shape') (begins shape) sources.symm).elim
        · rw [←sameColumn] at shape'
          exact comparisonText_unique proper.words shape shape' operand.some (operand_stops ordinary operand) sources
    obtain ⟨column,text⟩ := site
    obtain ⟨column',text'⟩ := site'
    dsimp only at sameColumn sameText
    rw [sameColumn,sameText]

end
end Scythe
